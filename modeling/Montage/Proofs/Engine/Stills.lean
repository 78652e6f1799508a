import Mathlib
import Montage.Proofs.Engine.Exports

/-!
The stills that a caller hears of at the end of a run.  From the time that a process is spawned to
the time that its end is told nothing but the process itself changes the directory of stills, and
where the way to the directory does not go up, the directory was empty before.  So what is listed
then is what the process has written.
-/

namespace Montage

theorem Path.join_ne_empty_of_ne {path : String} (base : String) (h : path ≠ "") :
    Path.join base path ≠ "" := by
  unfold Path.join
  split
  · exact h
  · split <;> simp [h]

/-- A watcher that follows its process tells nothing of the end. -/
theorem Run.Follows.endings_eq {r r' : Run} (h : r.Follows r') : r'.endings = r.endings := by
  cases h with
  | kill | exit => rfl
  | read h => exact h.endings

theorem Run.ending?_tell {r : Run} {o : Outcome} {stills : List String}
    (hover : r.isOver = false) : (r.tell (.ended o stills)).ending? = some (o, stills) := by
  have hnone : r.ending? = none := by simpa [isOver] using hover
  rw [ending?] at hnone
  rw [ending?, tell, List.findSome?_append, hnone]
  rfl

/-- Only the watcher tells of the end, with the stills that it finds then. -/
theorem Run.eq_tell_of_watch {r r' : Run} {stills : List String} (h : r.watch stills = some r')
    (hover : r'.isOver) : ∃ o, r' = r.tell (.ended o stills) := by
  unfold watch at h
  split at h
  case isTrue => contradiction
  case isFalse hnot =>
    split at h
    case h_1 o ho => exact ⟨o, (Option.some.inj h).symm⟩
    case h_2 =>
      rw [isOver_iff, (follows_of_follow h).endings_eq, ← isOver_iff] at hover
      exact absurd hover hnot

theorem Desk.Serve.isOver_eq {d d' : Desk} {slot : Slot} (hs : d.Serve slot d') {j : Nat}
    {r r' : Run} (hr : d.runs[j]? = some r) (hr' : d'.runs[j]? = some r') :
    r'.isOver = r.isOver := by
  cases hs with
  | rest | enter | settle | release => rw [Option.some.inj (hr.symm.trans hr')]
  | seize i k =>
    simp only [List.getElem?_modify, hr, Option.map_eq_map, Option.map_some,
      Option.some.injEq] at hr'
    rw [← hr']
    split <;> rfl
  | spawn =>
    rw [List.getElem?_append_left (List.getElem?_eq_some_iff.mp hr).1] at hr'
    rw [Option.some.inj (hr.symm.trans hr')]

namespace EngineState

/-- An action of a call or of a process of the encode slot. -/
def IsEncode (s : EngineState) : Action → Prop
  | .proceed i => ∃ command waits,
      s.calls[i]?.map Call.errand = some (.launch .encode command waits)
  | .alter j _ => s.runs[j]?.map Run.slot = some .encode
  | _ => False

/-- What can change the directory of stills: a process of its slot while it is alive, and the call
that has the lock of the slot once it has emptied it. -/
inductive ChangesStills (s : EngineState) : Action → Prop
  | process (j : Nat) (r : Run) (files : FileTree) : s.runs[j]? = some r → r.slot = .thumbnails →
      r.isAlive → ChangesStills s (.alter j files)
  | call (i : Nat) : s.desk.grip i = some ⟨.thumbnails, none⟩ → ChangesStills s (.proceed i)

end EngineState

namespace Engine

variable {e : Engine} {s s' : EngineState} {a : Action} {actions : List Action} {i j : Nat}
  {p : Place}

/-- Where something has come to hold, one of the steps has brought it about. -/
theorem exists_turning {P : EngineState → Prop} (h : e.steps s actions = some s') (hs : ¬P s)
    (hs' : P s') :
    ∃ pre a post u u', actions = pre ++ a :: post ∧ e.steps s pre = some u ∧ ¬P u ∧
      e.step u a = some u' ∧ P u' ∧ e.steps u' post = some s' := by
  induction actions generalizing s with
  | nil =>
    obtain rfl := Option.some.inj h
    exact absurd hs' hs
  | cons a rest ih =>
    obtain ⟨t, ht, hrest⟩ := steps_cons.mp h
    by_cases hP : P t
    · exact ⟨[], a, rest, s, t, rfl, rfl, hs, ht, hP, hrest⟩
    · obtain ⟨pre, b, post, u, u', rfl, hpre, hstep⟩ := ih hrest hP
      exact ⟨a :: pre, b, post, u, u', rfl, steps_cons.mpr ⟨t, ht, hpre⟩, hstep⟩

/-- A call for stills does not prepare; it begins with the lock of its slot. -/
theorem Reachable.phase_ne_prepare (hs : e.Reachable s) {c : Call} (hc : c ∈ s.calls)
    {command : Command} {waits : Bool} (herrand : c.errand = .launch .thumbnails command waits) :
    c.phase ≠ .prepare := by
  induction hs with
  | start => simp [EngineState.start] at hc
  | step _ hstep ih =>
    rcases (turn_of_step hstep).mem_calls hc with
      hc | ⟨job, -, rfl⟩ | ⟨_, -, -, honward⟩ | ⟨_, hkill⟩
    · exact ih hc
    · unfold begin at herrand ⊢
      split at herrand <;> simp_all
    · exact honward.ne_prepare
    · rw [herrand] at hkill
      contradiction

/-- Of all that the slot of stills can do, only two things change their directory. -/
theorem Reachable.sameBelow (hs : e.Reachable s) (h : e.step s a = some s')
    (hencode : s.IsEncode a → s.files.SameBelow p s'.files) (ha : ¬s.ChangesStills a) :
    s.files.SameBelow p s'.files := by
  have hsame (hfiles : s'.files = s.files) : s.files.SameBelow p s'.files := hfiles ▸ .refl p _
  cases turn_of_step h with
  | call | watch | emit | exit => exact .refl p _
  | alter j r files hr halive =>
    cases hslot : r.slot with
    | encode => exact hencode (by rw [EngineState.IsEncode, hr, Option.map_some, hslot])
    | thumbnails => exact (ha (.process j r files hr hslot halive)).elim
  | kill i c slots _ _ hturn => exact hsame (by cases hturn <;> simp)
  | launch i c slot command waits hc herrand hturn => cases slot with
    | encode => exact hencode ⟨command, waits, by rw [hc, Option.map_some, herrand]⟩
    | thumbnails =>
      have hgrip {phase : Phase} (hphase : c.phase = phase) :
          s.desk.grip i = (Call.mk (.launch .thumbnails command waits) phase).grip? := by
        rw [EngineState.desk_grip hc, ← herrand, ← hphase]
      cases hturn with
      | prepare _ hphase =>
        exact absurd hphase (hs.phase_ne_prepare (List.mem_of_getElem? hc) herrand)
      | clear _ hphase | makeWay _ hphase => exact (ha (.call i (hgrip hphase))).elim
      | unprepared | acquire | evict | inspect | spawn | fail | await => exact hsame (by simp)

/-- As long as a process has not ended, no other changes the directory of stills. -/
theorem Reachable.eq_of_changesStills (hs : e.Reachable s) {r : Run} (hr : s.runs[j]? = some r)
    (hslot : r.slot = .thumbnails) (hover : r.isOver = false) (ha : s.ChangesStills a) :
    ∃ files, a = .alter j files := by
  cases ha with
  | process k r' files hr' hslot' halive =>
    have hover' := (hs.coherent.runs r' (List.mem_of_getElem? hr')).isOver_eq_false halive
    rw [hs.coherent.eq_of_isOver_eq_false hr hr' (hslot.trans hslot'.symm) hover hover']
    exact ⟨files, rfl⟩
  | call i hgrip =>
    have hover' := hs.coherent.isOver_of_grip hgrip (by simp) (List.mem_of_getElem? hr) hslot
    rw [hover] at hover'
    contradiction

/-- As long as a call has the lock of an empty slot, no other changes the directory of stills. -/
theorem Reachable.eq_of_grip (hs : e.Reachable s) (hgrip : s.desk.grip i = some ⟨.thumbnails, none⟩)
    (ha : s.ChangesStills a) : a = .proceed i := by
  cases ha with
  | process k r files hr hslot halive =>
    have hover := hs.coherent.isOver_of_grip hgrip (by simp) (List.mem_of_getElem? hr) hslot
    rw [(hs.coherent.runs r (List.mem_of_getElem? hr)).isOver_eq_false halive] at hover
    contradiction
  | call k hgrip' =>
    have hholder := (hs.coherent.held i .thumbnails).mpr ⟨_, hgrip⟩
    rw [(hs.coherent.held k .thumbnails).mpr ⟨_, hgrip'⟩] at hholder
    rw [Option.some.inj hholder]

/-- The place of the directory of stills. -/
def stillsPlace (e : Engine) : Place := Path.target e.place e.config.thumbnailsDir

/-- What a call that has cleared the directory of stills has left there. -/
def Cleared (e : Engine) (s : EngineState) : Prop :=
  ∀ (i : Nat) (command : Command) (waits : Bool) (phase : Phase),
    s.calls[i]? = some ⟨.launch .thumbnails command waits, phase⟩ → phase ∈ [.makeWay, .spawn] →
      s.files.Vacant e.stillsPlace

theorem Cleared.start (files : FileTree) : e.Cleared (.start files) := by
  intro i command waits phase hc
  simp [EngineState.start] at hc

/-- A call for stills finds the directory vacant or clears it before it goes on. -/
theorem Cleared.step_own (hsound : s.files.Sound) (hup : ".." ∉ Path.names e.config.thumbnailsDir)
    (hs : e.Cleared s) {command : Command} {waits : Bool} {phase phase' : Phase}
    (hc : s.calls[i]? = some ⟨.launch .thumbnails command waits, phase⟩)
    (h : e.step s (.proceed i) = some s')
    (hc' : s'.calls[i]? = some ⟨.launch .thumbnails command waits, phase'⟩)
    (hphase' : phase' ∈ [.makeWay, .spawn]) : s'.files.Vacant e.stillsPlace := by
  have hplace : e.stillsPlace = Path.place e.place e.config.thumbnailsDir :=
    Path.target_eq_place hup
  have hnext {t : EngineState} {next : Phase}
      (hcalls : t.calls = s.calls.set i ⟨.launch .thumbnails command waits, next⟩)
      (ht : t.calls[i]? = some ⟨.launch .thumbnails command waits, phase'⟩) : next = phase' := by
    rw [hcalls, List.getElem?_set_of_eq_some hc] at ht
    exact congrArg Call.phase (Option.some.inj ht)
  cases launchTurn_of_step hc h with
  | inspect found _ hfound =>
    obtain rfl := hnext rfl hc'
    cases found with
    | true => simp at hphase'
    | false =>
      rw [hplace]
      exact hsound.vacant hup (Path.join_ne_empty_of_ne _ (by decide)) hfound
  | clear files _ hfiles => exact FileTree.vacant_of_removeTree hfiles
  | makeWay files hphase hfiles =>
    have hvacant := hs i command waits phase hc (by simp_all)
    rw [hplace] at hvacant ⊢
    exact hvacant.makeDirectories hup hfiles
  | acquire =>
    obtain rfl := hnext (EngineState.calls_acquire ..) hc'
    cases hoccupant : (s.seat .thumbnails).occupant <;> simp [hoccupant] at hphase'
  | spawn =>
    obtain rfl := hnext (by simp; rfl) hc'
    cases waits <;> simp at hphase'
  | prepare | unprepared | evict | await =>
    obtain rfl := hnext rfl hc'
    simp at hphase'
  | fail =>
    obtain rfl := hnext (by simp; rfl) hc'
    simp at hphase'

theorem Cleared.step (hreach : e.Reachable s) (hsound : s.files.Sound)
    (hup : ".." ∉ Path.names e.config.thumbnailsDir) (hs : e.Cleared s)
    (hencode : s.IsEncode a → s.files.SameBelow e.stillsPlace s'.files)
    (h : e.step s a = some s') : e.Cleared s' := by
  intro i command waits phase hc' hphase
  by_cases ha : a = .proceed i
  · subst ha
    cases turn_of_step h with
    | launch _ c slot command' waits' hc herrand hturn =>
      obtain ⟨next, -, hcalls⟩ := hturn.onward
      obtain ⟨errand, before⟩ := c
      have hcall : Call.mk errand next = ⟨.launch .thumbnails command waits, phase⟩ := by
        rw [hcalls, List.getElem?_set_of_eq_some hc] at hc'
        exact Option.some.inj hc'
      obtain rfl : errand = .launch .thumbnails command waits := congrArg Call.errand hcall
      exact hs.step_own hsound hup hc h hc' hphase
    | kill _ c slots hc herrand hturn =>
      obtain ⟨slots', next, -, hcalls⟩ := hturn.onward herrand
      rw [hcalls, List.getElem?_set_of_eq_some hc] at hc'
      simp at hc'
  · have hgrip : (Call.mk (.launch .thumbnails command waits) phase).grip? =
        some ⟨.thumbnails, none⟩ := by
      simp only [List.mem_cons, List.not_mem_nil, or_false] at hphase
      rcases hphase with rfl | rfl <;> rfl
    rcases (turn_of_step h).calls_getElem? hc' ha with hc | ⟨job, hjob⟩
    · have hsame := hreach.sameBelow h hencode fun hchanges =>
        ha (hreach.eq_of_grip ((EngineState.desk_grip hc).trans hgrip) hchanges)
      exact hsame.vacant (hs i command waits phase hc hphase)
    · rw [hjob, grip?_begin] at hgrip
      contradiction

/-- A run is new where the call that has the lock of its slot spawns it. -/
theorem exists_spawn (h : e.step s a = some s') (hj : ¬j < s.runs.length)
    (hj' : j < s'.runs.length) :
    ∃ i slot command waits, a = .proceed i ∧ s.runs.length = j ∧
      s.calls[i]? = some ⟨.launch slot command waits, .spawn⟩ ∧
      s'.runs = s.runs ++ [Run.start slot command] ∧ s'.files = s.files := by
  have hlength (heq : s'.runs.length = s.runs.length) : False := hj (heq ▸ hj')
  cases turn_of_step h with
  | call | alter => exact (hlength rfl).elim
  | watch | emit | exit => exact (hlength (by simp)).elim
  | kill i c slots _ _ hturn => exact (hlength (by cases hturn <;> simp)).elim
  | launch i c slot command waits hc herrand hturn =>
    cases hturn with
    | spawn hphase =>
      refine ⟨i, slot, command, waits, rfl, ?_, ?_, by simp, by simp⟩
      · simp only [EngineState.runs_setCall, EngineState.runs_setSeat, List.length_append,
          List.length_singleton] at hj'
        omega
      · rw [hc, ← herrand, ← hphase]
    | prepare | unprepared | acquire | evict | inspect | clear | makeWay | fail | await =>
      exact (hlength (by simp)).elim

/-- A run is over where its watcher tells of the end. -/
theorem exists_tell (h : e.step s a = some s') {r r' : Run} (hr : s.runs[j]? = some r)
    (hr' : s'.runs[j]? = some r') (hover : r.isOver = false) (hover' : r'.isOver) :
    ∃ o, a = .watch j ∧ r' = r.tell (.ended o (e.stills s.files r.slot)) := by
  have hsame {k : Nat} {r₀ next : Run} (hk : s.runs[k]? = some r₀)
      (hnext : next.isOver = r₀.isOver) (hset : (s.runs.set k next)[j]? = some r') : False := by
    by_cases hkj : k = j
    · subst hkj
      obtain rfl := Option.some.inj (hk.symm.trans hr)
      rw [List.getElem?_set_of_eq_some hk, Option.some.injEq] at hset
      rw [← hset, hnext, hover] at hover'
      contradiction
    · rw [List.getElem?_set_ne hkj, hr, Option.some.injEq] at hset
      rw [← hset, hover] at hover'
      contradiction
  have hserve {slot : Slot} (hs : s.desk.Serve slot s'.desk) : False := by
    rw [hs.isOver_eq hr hr', hover] at hover'
    contradiction
  cases turn_of_step h with
  | call | alter =>
    rw [Option.some.inj (hr.symm.trans hr'), hover'] at hover
    contradiction
  | launch i c slot command waits hc herrand hturn =>
    exact (hserve (desk_launchTurn hc herrand hturn)).elim
  | kill i c slots hc herrand hturn => cases slots with
    | nil =>
      obtain ⟨⟩ := hturn
      rw [Option.some.inj (hr.symm.trans hr'), hover'] at hover
      contradiction
    | cons slot rest => exact (hserve (desk_killTurn hc herrand hturn)).elim
  | watch k r₀ next hk hnext =>
    by_cases hkj : k = j
    · subst hkj
      obtain rfl := Option.some.inj (hk.symm.trans hr)
      rw [List.getElem?_set_of_eq_some hk, Option.some.injEq] at hr'
      subst hr'
      obtain ⟨o, ho⟩ := Run.eq_tell_of_watch hnext hover'
      exact ⟨o, rfl, ho⟩
    · rw [List.getElem?_set_ne hkj, hr, Option.some.injEq] at hr'
      rw [← hr', hover] at hover'
      contradiction
  | emit k r₀ bytes hk =>
    have hnext : Run.isOver { r₀ with unread := r₀.unread ++ bytes } = r₀.isOver := rfl
    exact (hsame hk hnext hr').elim
  | exit k r₀ code hk =>
    have hnext : Run.isOver { r₀ with life := .exited code } = r₀.isOver := rfl
    exact (hsame hk hnext hr').elim

/-- Trees stay sound, and the encode slot leaves the directory of stills alone. -/
structure Spared (e : Engine) (s : EngineState) (actions : List Action) : Prop where
  sound : ∀ pre post u, actions = pre ++ post → e.steps s pre = some u → u.files.Sound
  encode : ∀ pre a post u u', actions = pre ++ a :: post → e.steps s pre = some u →
    e.step u a = some u' → u.IsEncode a → u.files.SameBelow e.stillsPlace u'.files

/-- Run `j` in the course of the actions: it is spawned for stills, which leads to the state
`spawned`, then the actions `during` lead to the state `last`, and there its end is told. -/
def Spans (e : Engine) (s : EngineState) (actions : List Action) (s' : EngineState) (j : Nat)
    (spawned : EngineState) (during : List Action) (last : EngineState) : Prop :=
  ∃ pre i command before told post, actions = pre ++ .proceed i :: (during ++ .watch j :: post) ∧
    e.steps s pre = some before ∧ before.runs.length = j ∧
    e.step before (.proceed i) = some spawned ∧
    spawned.runs = before.runs ++ [Run.start .thumbnails command] ∧
    e.steps spawned during = some last ∧ e.step last (.watch j) = some told ∧
    e.steps told post = some s'

/-- The process of run `j` puts something where nothing was. -/
def Writes (e : Engine) (j : Nat) (p : Place) (s : EngineState) (actions : List Action) : Prop :=
  ∃ pre files post u, actions = pre ++ .alter j files :: post ∧ e.steps s pre = some u ∧
    u.files.entry? p = none ∧ files.entry? p ≠ none

/-- What the stills are that the caller hears of at the end of run `j`. -/
structure Lists (e : Engine) (s : EngineState) (actions : List Action) (s' : EngineState) (j : Nat)
    (stills : List String) (spawned : EngineState) (during : List Action) (last : EngineState) :
    Prop where
  spans : e.Spans s actions s' j spawned during last
  /-- They are those that are in the directory when the end is told. -/
  listed : stills = e.stills last.files .thumbnails
  /-- Until then nothing but the process of the run changes the directory. -/
  kept : ∀ pre a post u u', during = pre ++ a :: post → e.steps spawned pre = some u →
    e.step u a = some u' → (∀ files, a ≠ .alter j files) →
    u.files.SameBelow e.stillsPlace u'.files
  /-- If the way to the directory does not go up, the process has written all of them. -/
  own : ".." ∉ Path.names e.config.thumbnailsDir → ∀ still ∈ stills, ∃ name,
    still = Path.join e.config.thumbnailsDir name ∧
    e.Writes j (e.stillsPlace ++ [name]) spawned during

section Course

variable {files : FileTree} {run : Run} {o : Outcome} {stills : List String}
  {spawned last : EngineState} {during : List Action}

theorem Spared.cleared (hspared : e.Spared (.start files) actions)
    (hup : ".." ∉ Path.names e.config.thumbnailsDir) {pre post : List Action} {u : EngineState}
    (hactions : actions = pre ++ post) (h : e.steps (.start files) pre = some u) :
    e.Cleared u := by
  induction pre using List.reverseRecOn generalizing post u with
  | nil =>
    rw [← Option.some.inj h]
    exact .start files
  | append_singleton pre a ih =>
    obtain ⟨t, ht, hu⟩ := steps_append.mp h
    obtain ⟨_, hstep, hnil⟩ := steps_cons.mp hu
    obtain rfl := Option.some.inj hnil
    rw [List.append_assoc, List.singleton_append] at hactions
    exact (ih hactions ht).step (Reachable.steps (.start files) ht)
      (hspared.sound pre _ t hactions ht) hup (hspared.encode pre a post t _ hactions ht hstep)
      hstep

/-- The course of a run whose end was told: it was spawned, and then its watcher told the end. -/
theorem exists_spans (h : e.steps (.start files) actions = some s') (hrun : s'.runs[j]? = some run)
    (hslot : run.slot = .thumbnails) (hend : run.ending? = some (o, stills)) :
    ∃ spawned during last, e.Spans (.start files) actions s' j spawned during last ∧
      stills = e.stills last.files .thumbnails := by
  obtain ⟨pre, a, post, before, spawned, rfl, hpre, hnew, hspawn, hnew', hpost⟩ :=
    exists_turning (P := fun u => j < u.runs.length) h (Nat.not_lt_zero j)
      (List.getElem?_eq_some_iff.mp hrun).1
  obtain ⟨i, slot, command, waits, rfl, hlength, -, hruns, -⟩ := exists_spawn hspawn hnew hnew'
  have hreach : e.Reachable spawned := (Reachable.steps (.start files) hpre).step hspawn
  have hstart : spawned.runs[j]? = some (Run.start slot command) := by
    rw [hruns, ← hlength, List.getElem?_concat_length]
  have hover : run.isOver := by rw [Run.isOver, hend]; rfl
  obtain ⟨during, b, post, last, told, rfl, hduring, hlast, htell, htold, hrest⟩ :=
    exists_turning (P := fun u => ∃ r, u.runs[j]? = some r ∧ r.isOver) hpost
      (by simp [hstart, Run.isOver, Run.ending?, Run.start]) ⟨run, hrun, hover⟩
  obtain ⟨r, hr, hbecomes⟩ := hreach.becomes hduring hstart
  obtain ⟨r', hr', hover'⟩ := htold
  have hnot : r.isOver = false := by
    by_contra hover
    exact hlast ⟨r, hr, (Bool.not_eq_false _).mp hover⟩
  obtain ⟨o', rfl, hr'_eq⟩ := exists_tell htell hr hr' hnot hover'
  obtain ⟨run', hrun', hbecomes'⟩ := ((hreach.steps hduring).step htell).becomes hrest hr'
  obtain rfl := Option.some.inj (hrun.symm.trans hrun')
  have hslot' : r.slot = .thumbnails := by
    rw [← hslot, hbecomes'.slot, hr'_eq]
    rfl
  have hending : r'.ending? = some (o', e.stills last.files r.slot) := by
    rw [hr'_eq]
    exact Run.ending?_tell hnot
  have hnotices : run.ending? = r'.ending? := by
    rw [Run.ending?, (hbecomes'.settled hover').2, Run.ending?]
  rw [hslot'] at hending
  refine ⟨spawned, during, last, ⟨pre, i, command, before, told, post, rfl, hpre, hlength, hspawn,
    ?_, hduring, htell, hrest⟩, ?_⟩
  · rw [hruns, ← hbecomes.slot.symm.trans hslot']
    rfl
  · rw [hend, hending] at hnotices
    exact (Prod.mk.inj (Option.some.inj hnotices)).2

/-- Until the end of a run is told, the run is in its slot. -/
theorem Spans.exists_run (h : e.Spans (.start files) actions s' j spawned during last)
    {pre post : List Action} {u : EngineState} (hduring : during = pre ++ post)
    (hpre : e.steps spawned pre = some u) :
    ∃ r, u.runs[j]? = some r ∧ r.slot = .thumbnails ∧ r.isOver = false := by
  obtain ⟨first, i, command, before, told, rest, -, hfirst, hlength, hspawn, hruns, hcourse, htell,
    -⟩ := h
  have hreach : e.Reachable spawned := (Reachable.steps (.start files) hfirst).step hspawn
  have hstart : spawned.runs[j]? = some (Run.start .thumbnails command) := by
    rw [hruns, ← hlength, List.getElem?_concat_length]
  obtain ⟨r, hr, hbecomes⟩ := hreach.becomes hpre hstart
  refine ⟨r, hr, hbecomes.slot, ?_⟩
  obtain ⟨_, hpre', hpost⟩ := steps_append.mp (hduring ▸ hcourse)
  obtain rfl := Option.some.inj (hpre.symm.trans hpre')
  obtain ⟨r', hr', hbecomes'⟩ := (hreach.steps hpre).becomes hpost hr
  -- a run that is over has no watcher any more
  by_contra hover
  have hover' := hbecomes'.isOver ((Bool.not_eq_false _).mp hover)
  cases turn_of_step htell with
  | watch _ r₀ next hr₀ hnext =>
    obtain rfl := Option.some.inj (hr'.symm.trans hr₀)
    simp [Run.watch, hover'] at hnext

theorem Spans.reachable (h : e.Spans (.start files) actions s' j spawned during last) :
    e.Reachable spawned := by
  obtain ⟨first, i, command, before, told, rest, -, hfirst, -, hspawn, -⟩ := h
  exact (Reachable.steps (.start files) hfirst).step hspawn

/-- While a run lasts, no step but those of its own process changes the directory. -/
theorem Spared.kept (hspared : e.Spared (.start files) actions)
    (h : e.Spans (.start files) actions s' j spawned during last) {pre post : List Action}
    {u u' : EngineState} (hduring : during = pre ++ a :: post) (hpre : e.steps spawned pre = some u)
    (hstep : e.step u a = some u') (ha : ∀ files, a ≠ .alter j files) :
    u.files.SameBelow e.stillsPlace u'.files := by
  have hreach := h.reachable.steps hpre
  obtain ⟨r, hr, hslot, hover⟩ := h.exists_run hduring hpre
  refine hreach.sameBelow hstep (fun hencode => ?_) fun hchanges => ?_
  · obtain ⟨first, i, command, before, told, rest, rfl, hfirst, -, hspawn, -⟩ := h
    refine hspared.encode (first ++ .proceed i :: pre) a (post ++ .watch j :: rest) u u' ?_ ?_ hstep
      hencode
    · simp [hduring]
    · exact steps_append.mpr ⟨before, hfirst, steps_cons.mpr ⟨spawned, hspawn, hpre⟩⟩
  · obtain ⟨files, rfl⟩ := hreach.eq_of_changesStills hr hslot hover hchanges
    exact ha files rfl

/-- When a process is spawned for stills nothing is in their directory. -/
theorem Spared.vacant (hspared : e.Spared (.start files) actions)
    (hup : ".." ∉ Path.names e.config.thumbnailsDir)
    (h : e.Spans (.start files) actions s' j spawned during last) :
    spawned.files.Vacant e.stillsPlace := by
  obtain ⟨first, i, command, before, told, rest, rfl, hfirst, hlength, hspawn, hruns, -⟩ := h
  obtain ⟨k, slot, command', waits, hik, -, hc, hruns', hfiles⟩ :=
    exists_spawn (j := j) hspawn (by rw [hlength]; exact Nat.lt_irrefl j)
      (by rw [hruns, ← hlength, List.length_append]; exact Nat.lt_succ_self _)
  obtain rfl := Action.proceed.inj hik
  have hstart := List.append_cancel_left (hruns.symm.trans hruns')
  obtain rfl : slot = .thumbnails := congrArg Run.slot (List.cons.inj hstart).1.symm
  rw [hfiles]
  exact hspared.cleared hup rfl hfirst i command' waits .spawn hc (by simp)

theorem Spared.own (hspared : e.Spared (.start files) actions)
    (hup : ".." ∉ Path.names e.config.thumbnailsDir)
    (h : e.Spans (.start files) actions s' j spawned during last) {still : String}
    (hstill : still ∈ e.stills last.files .thumbnails) :
    ∃ name, still = Path.join e.config.thumbnailsDir name ∧
      e.Writes j (e.stillsPlace ++ [name]) spawned during := by
  unfold Engine.stills at hstill
  split at hstill
  case h_1 => contradiction
  case h_2 =>
  split at hstill
  case h_2 => contradiction
  case h_1 listed hlisted =>
  obtain ⟨name, rfl, hentry⟩ := FileTree.exists_of_mem_listStills hlisted hstill
  refine ⟨name, rfl, ?_⟩
  have hcourse : e.steps spawned during = some last := by
    obtain ⟨-, -, -, -, -, -, -, -, -, -, -, hcourse, -⟩ := h
    exact hcourse
  obtain ⟨pre, a, post, u, u', rfl, hpre, hnone, hstep, hsome, -⟩ :=
    exists_turning (P := fun u => u.files.entry? (e.stillsPlace ++ [name]) ≠ none) hcourse
      (not_not.mpr (hspared.vacant hup h name [])) hentry
  have hnone := not_not.mp hnone
  -- the step that puts it there is one of the process itself
  obtain ⟨written, rfl⟩ : ∃ written, a = .alter j written := by
    by_contra ha
    rw [hspared.kept h rfl hpre hstep (fun files heq => ha ⟨files, heq⟩) [name], hnone] at hsome
    exact hsome rfl
  refine ⟨pre, written, post, u, rfl, hpre, hnone, ?_⟩
  cases turn_of_step hstep with
  | alter => exact hsome

theorem Spared.exists_lists (hspared : e.Spared (.start files) actions)
    (h : e.steps (.start files) actions = some s') (hrun : s'.runs[j]? = some run)
    (hslot : run.slot = .thumbnails) (hend : run.ending? = some (o, stills)) :
    ∃ spawned during last, e.Lists (.start files) actions s' j stills spawned during last := by
  obtain ⟨spawned, during, last, hspans, rfl⟩ := exists_spans h hrun hslot hend
  exact ⟨spawned, during, last, hspans, rfl, fun _ _ _ _ _ => hspared.kept hspans,
    fun hup _ => hspared.own hup hspans⟩

end Course

/-- An action of an engine that is called for stills alone.  A process may change the files as it
likes, as long as everything stands in a directory. -/
def IsForStills : Action → Prop
  | .call (.start _) | .call (.exportFile _) => False
  | .alter _ files => files.Sound
  | _ => True

/-- What an engine is like that has been called for stills alone. -/
structure IsOnStills (e : Engine) (s : EngineState) : Prop where
  reachable : e.Reachable s
  sound : s.files.Sound
  calls : ∀ c ∈ s.calls, ∀ (command : Command) (waits : Bool),
    c.errand ≠ .launch .encode command waits
  runs : ∀ r ∈ s.runs, r.slot = .thumbnails

namespace IsOnStills

theorem start {files : FileTree} (hsound : files.Sound) : e.IsOnStills (.start files) where
  reachable := .start files
  sound := hsound
  calls _ hc := by contradiction
  runs _ hr := by contradiction

theorem calls_step (hs : e.IsOnStills s) (ha : IsForStills a) (h : e.step s a = some s') :
    ∀ c ∈ s'.calls, ∀ (command : Command) (waits : Bool),
      c.errand ≠ .launch .encode command waits := by
  intro c hc command waits herrand
  rcases (turn_of_step h).mem_calls hc with hc | ⟨job, rfl, rfl⟩ | ⟨c₀, hc₀, heq, -⟩ | ⟨_, hkill⟩
  · exact hs.calls c hc command waits herrand
  · cases job with
    | start | exportFile => exact ha
    | thumbnails r =>
      have hslots := slots_begin e (.thumbnails r)
      rw [herrand] at hslots
      simp [Errand.slots, Job.slots] at hslots
    | kill slots => contradiction
  · exact hs.calls c₀ hc₀ command waits (heq ▸ herrand)
  · rw [herrand] at hkill
    contradiction

theorem runs_step (hs : e.IsOnStills s) (h : e.step s a = some s') :
    ∀ r ∈ s'.runs, r.slot = .thumbnails := by
  intro r hr
  obtain ⟨j, hj⟩ := List.mem_iff_getElem?.mp hr
  by_cases hold : j < s.runs.length
  · obtain ⟨r', hr', hbecomes⟩ :=
      hs.reachable.coherent.becomes (desk_step h) (List.getElem?_eq_getElem hold)
    obtain rfl := Option.some.inj (hr'.symm.trans hj)
    rw [hbecomes.slot]
    exact hs.runs _ (List.getElem_mem hold)
  · obtain ⟨i, slot, command, waits, -, hlength, hc, hruns, -⟩ :=
      exists_spawn h hold (List.getElem?_eq_some_iff.mp hj).1
    have hslot : slot = .thumbnails := by
      cases slot with
      | encode => exact absurd rfl (hs.calls _ (List.mem_of_getElem? hc) command waits)
      | thumbnails => rfl
    rw [hruns, ← hlength, List.getElem?_concat_length] at hj
    rw [← Option.some.inj hj, hslot]
    rfl

theorem step (hs : e.IsOnStills s) (ha : IsForStills a) (h : e.step s a = some s') :
    e.IsOnStills s' where
  reachable := hs.reachable.step h
  sound := by
    rcases files_step h with hfiles | ⟨j, r, rfl, -⟩
    · exact hfiles.sound hs.sound
    · exact ha
  calls := hs.calls_step ha h
  runs := hs.runs_step h

theorem steps (hs : e.IsOnStills s) (ha : ∀ a ∈ actions, IsForStills a)
    (h : e.steps s actions = some s') : e.IsOnStills s' := by
  induction actions generalizing s with
  | nil =>
    obtain rfl := Option.some.inj h
    exact hs
  | cons a rest ih =>
    obtain ⟨t, ht, hrest⟩ := steps_cons.mp h
    rw [List.forall_mem_cons] at ha
    exact ih (hs.step ha.1 ht) ha.2 hrest

/-- Nothing is done for the encode slot. -/
theorem not_isEncode (hs : e.IsOnStills s) (a : Action) : ¬s.IsEncode a := by
  intro hencode
  cases a with
  | proceed i =>
    obtain ⟨command, waits, hcall⟩ := hencode
    obtain ⟨c, hc, herrand⟩ := Option.map_eq_some_iff.mp hcall
    exact hs.calls c (List.mem_of_getElem? hc) command waits herrand
  | alter j files =>
    obtain ⟨r, hr, hslot⟩ := Option.map_eq_some_iff.mp hencode
    rw [hs.runs r (List.mem_of_getElem? hr)] at hslot
    contradiction
  | call | watch | emit | exit => exact hencode

theorem spared (hs : e.IsOnStills s) (ha : ∀ a ∈ actions, IsForStills a) :
    e.Spared s actions where
  sound pre post u hactions hpre :=
    (hs.steps (fun a hmem => ha a (hactions ▸ List.mem_append_left post hmem)) hpre).sound
  encode pre a post u u' hactions hpre _ hencode := by
    have hu := hs.steps (fun b hmem => ha b (hactions ▸ List.mem_append_left (a :: post) hmem)) hpre
    exact absurd hencode (hu.not_isEncode a)

end IsOnStills

/-- The files of the sample with one still. -/
def stillFiles (still : String) : FileTree :=
  ⟨(["tmp", "videobones", "thumbs", still], .file [] false) ::
    (["tmp", "videobones", "thumbs"], .directory) :: (["tmp", "videobones"], .directory) ::
    sampleFiles.entries⟩

/-- Stills are asked for again while the first process still runs. -/
def changeover : List Action :=
  let stills := .call (.thumbnails (.ofMode .thumbnail))
  stills :: List.replicate 5 (Action.proceed 0) ++ [.alter 0 (stillFiles "first.png"), stills]
    ++ Action.proceed 1 :: List.replicate 2 (Action.watch 0) ++ List.replicate 5 (Action.proceed 1)
    ++ [.alter 1 (stillFiles "second.png"), .exit 1 0] ++ List.replicate 3 (Action.watch 1)

/-- The sample with a scratch directory whose path leads through a place that does not exist yet. -/
def detour : Engine := { sample with config := .standard "/tmp/gap/.." }

/-- One process that writes nothing. -/
def idleRun : List Action :=
  Action.call (.thumbnails (.ofMode .thumbnail)) :: List.replicate 4 (Action.proceed 0)
    ++ Action.exit 0 0 :: List.replicate 3 (Action.watch 0)

end Engine

end Montage
