import Mathlib
import Montage.Proofs.Engine.Slots
import Montage.Proofs.Verdict

/-!
What holds in every state that an engine can come to: a slot has one process at a time, each
process is told of once when it is gone, and a slot is idle when a process is spawned in it and
when a kill of it returns.
-/

namespace Montage

/-- The processes of a slot are gone, and each of them has been told of once. -/
def EngineState.IsIdle (s : EngineState) (slot : Slot) : Prop :=
  ∀ r ∈ s.runs, r.slot = slot → r.IsGone

def EngineState.answer? (s : EngineState) (i : Nat) : Option (Except EngineError Reply) :=
  s.calls[i]?.bind Call.answer?

/-- The slots that a job is about. -/
def Job.slots : Job → List Slot
  | .start _ => [.encode]
  | .exportFile _ => [.encode]
  | .thumbnails _ => [.thumbnails]
  | .kill slots => slots

/-- The slots that a call still has to do with. -/
def Errand.slots : Errand → List Slot
  | .launch slot .. => [slot]
  | .kill slots => slots

theorem Run.Becomes.isGone {r r' : Run} (h : r.Becomes r') (hr : r.IsGone) : r'.IsGone := by
  have hover : r.isOver := by
    rw [Run.isOver_iff, ← List.length_pos_iff, hr.2]
    exact Nat.one_pos
  obtain ⟨hlife, hnotices⟩ := h.settled hover
  rwa [Run.IsGone, Run.isAlive, hlife, Run.endings, hnotices]

namespace Engine

variable {e : Engine} {s s' : EngineState}

/-- The states that an engine can come to. -/
inductive Reachable (e : Engine) : EngineState → Prop
  | start (files : FileTree) : Reachable e (.start files)
  | step {s s' : EngineState} {a : Action} : Reachable e s → e.step s a = some s' → Reachable e s'

theorem steps_cons {a : Action} {rest : List Action} :
    e.steps s (a :: rest) = some s' ↔ ∃ t, e.step s a = some t ∧ e.steps t rest = some s' :=
  Option.bind_eq_some_iff

theorem steps_append {xs ys : List Action} :
    e.steps s (xs ++ ys) = some s' ↔ ∃ t, e.steps s xs = some t ∧ e.steps t ys = some s' := by
  induction xs generalizing s with
  | nil => simp [steps]
  | cons a xs ih =>
    rw [List.cons_append, steps_cons]
    simp only [ih, steps_cons]
    constructor
    · rintro ⟨t, ht, u, hu, hys⟩
      exact ⟨u, ⟨t, ht, hu⟩, hys⟩
    · rintro ⟨u, ⟨t, ht, hu⟩, hys⟩
      exact ⟨t, ht, u, hu, hys⟩

/-- What every step keeps holds after any number of them. -/
theorem steps_keep {P : EngineState → Prop} {actions : List Action}
    (hstep : ∀ s s' a, P s → e.step s a = some s' → P s') (hs : P s)
    (h : e.steps s actions = some s') : P s' := by
  induction actions generalizing s with
  | nil =>
    obtain rfl := Option.some.inj h
    exact hs
  | cons a rest ih =>
    obtain ⟨t, ht, hrest⟩ := steps_cons.mp h
    exact ih (hstep s t a hs ht) hrest

theorem slots_of_compile {job : Job} {errand : Errand} (h : e.compile job = .ok errand) :
    errand.slots = job.slots := by
  cases job with
  | start r | thumbnails r =>
    obtain ⟨c, -, hc⟩ := bind_eq_ok_iff.mp h
    obtain rfl := Except.ok.inj hc
    rfl
  | exportFile r =>
    obtain ⟨_, -, h⟩ := bind_eq_ok_iff.mp h
    obtain ⟨c, -, hc⟩ := bind_eq_ok_iff.mp h
    obtain rfl := Except.ok.inj hc
    rfl
  | kill slots =>
    obtain rfl := Except.ok.inj h
    rfl

theorem slots_begin (e : Engine) (job : Job) : (e.begin job).errand.slots ⊆ job.slots := by
  unfold begin
  split
  case h_1 => exact List.nil_subset _
  case h_2 hcompile | h_3 hcompile => exact fun slot => (slots_of_compile hcompile ▸ ·)

/-- A call has to do with fewer and fewer slots. -/
theorem slots_step {a : Action} (h : e.step s a = some s') {i : Nat} {c : Call}
    (hc : s.calls[i]? = some c) :
    ∃ c', s'.calls[i]? = some c' ∧ c'.errand.slots ⊆ c.errand.slots := by
  have hturn := turn_of_step h
  by_cases ha : a = .proceed i
  · subst ha
    have hset := List.getElem?_set_of_eq_some hc
    cases hturn with
    | launch _ c₀ slot command waits hc₀ herrand hturn =>
      obtain rfl := Option.some.inj (hc.symm.trans hc₀)
      obtain ⟨phase, hcalls⟩ := hturn.calls_eq
      exact ⟨{ c with phase }, by rw [hcalls, hset], List.Subset.refl _⟩
    | kill _ c₀ slots hc₀ herrand hturn =>
      obtain rfl := Option.some.inj (hc.symm.trans hc₀)
      cases slots with
      | nil =>
        obtain ⟨⟩ := hturn
        exact ⟨_, hset _, List.Subset.refl _⟩
      | cons slot rest =>
        rcases hturn.calls_eq with ⟨phase, -, hcalls⟩ | hcalls
        · exact ⟨{ c with phase }, by rw [hcalls, hset], List.Subset.refl _⟩
        · refine ⟨_, by rw [hcalls, hset], ?_⟩
          rw [herrand]
          exact List.subset_cons_self slot rest
  · exact ⟨c, hturn.getElem?_calls hc ha, List.Subset.refl _⟩

theorem slots_steps {job : Job} {actions : List Action}
    (h : e.steps s (.call job :: actions) = some s') :
    ∃ c, s'.calls[s.calls.length]? = some c ∧ c.errand.slots ⊆ job.slots := by
  obtain ⟨t, ht, hrest⟩ := steps_cons.mp h
  obtain rfl := Option.some.inj ht
  refine steps_keep (P := fun t => ∃ c, t.calls[s.calls.length]? = some c ∧
    c.errand.slots ⊆ job.slots) (fun t t' a ht hstep => ?_) ?_ hrest
  · obtain ⟨c, hc, hslots⟩ := ht
    obtain ⟨c', hc', hslots'⟩ := slots_step hstep hc
    exact ⟨c', hc', List.Subset.trans hslots' hslots⟩
  · exact ⟨e.begin job, List.getElem?_concat_length .., slots_begin e job⟩

namespace Reachable

theorem steps {actions : List Action} (hs : e.Reachable s) (h : e.steps s actions = some s') :
    e.Reachable s' :=
  steps_keep (fun _ _ _ => .step) hs h

theorem coherent (h : e.Reachable s) : s.desk.Coherent := by
  induction h with
  | start files =>
    rw [EngineState.desk_start]
    exact .start
  | step _ hstep ih => exact ih.step (desk_step hstep)

/-- No run is lost, whatever comes later. -/
theorem becomes {actions : List Action} (hs : e.Reachable s) (h : e.steps s actions = some s')
    {j : Nat} {r : Run} (hr : s.runs[j]? = some r) :
    ∃ r', s'.runs[j]? = some r' ∧ r.Becomes r' := by
  suffices hkeep : e.Reachable s' ∧ ∃ r', s'.runs[j]? = some r' ∧ r.Becomes r' from hkeep.2
  refine steps_keep (P := fun t => e.Reachable t ∧ ∃ r', t.runs[j]? = some r' ∧ r.Becomes r')
    (fun t t' a ht hstep => ?_) ⟨hs, r, hr, .refl r⟩ h
  obtain ⟨ht, rt, hrt, hbecomes⟩ := ht
  obtain ⟨r', hr', hnext⟩ := ht.coherent.becomes (desk_step hstep) hrt
  exact ⟨ht.step hstep, r', hr', hbecomes.trans hnext⟩

/-- A call that takes its turn touches only the slots that it still has to do with. -/
theorem untouched (hs : e.Reachable s) {i : Nat} {c : Call} {slot : Slot}
    (hc : s.calls[i]? = some c) (hslot : slot ∉ c.errand.slots)
    (h : e.step s (.proceed i) = some s') : s.desk.Untouched slot s'.desk := by
  have hserve {place : Slot} (hplace : place ∈ c.errand.slots)
      (hserved : s.desk.Serve place s'.desk) : s.desk.Untouched slot s'.desk :=
    hs.coherent.untouched_serve hserved fun heq => hslot (heq ▸ hplace)
  cases turn_of_step h with
  | launch _ c' place command waits hc' herrand hturn =>
    obtain rfl := Option.some.inj (hc.symm.trans hc')
    exact hserve (by simp [herrand, Errand.slots]) (desk_launchTurn hc herrand hturn)
  | kill _ c' slots hc' herrand hturn =>
    obtain rfl := Option.some.inj (hc.symm.trans hc')
    cases slots with
    | nil =>
      obtain ⟨⟩ := hturn
      rw [desk_finish hc herrand]
      exact ⟨rfl, fun j r _ => Iff.rfl⟩
    | cons place rest =>
      exact hserve (by simp [herrand, Errand.slots]) (desk_killTurn hc herrand hturn)

theorem isIdle_of_isOver (hs : e.Reachable s) {slot : Slot}
    (hover : ∀ r ∈ s.runs, r.slot = slot → r.isOver) : s.IsIdle slot := fun r hr hslot =>
  (hs.coherent.runs r hr).isGone (hover r hr hslot)

/-- Where a run is new, its slot was idle. -/
theorem isIdle_of_new (hs : e.Reachable s) {a : Action} (h : e.step s a = some s') {r : Run}
    (hr : r ∈ s'.runs.drop s.runs.length) : s.IsIdle r.slot :=
  hs.isIdle_of_isOver fun _ hr₀ => hs.coherent.isOver_of_new (desk_step h) hr hr₀

/-- Where a kill is done with a slot, the slot is idle. -/
theorem isIdle_of_kill (hs : e.Reachable s) {i : Nat} {slot : Slot} {rest : List Slot}
    {phase : Phase} (hc : s.calls[i]? = some ⟨.kill (slot :: rest), phase⟩)
    (h : e.step s (.proceed i) = some s') (hdone : s'.calls[i]? = some ⟨.kill rest, .acquire⟩) :
    s'.IsIdle slot := by
  have hrun {t : EngineState} (hruns : t.runs = s.runs) (hidle : s.IsIdle slot) :
      t.IsIdle slot := by
    rwa [EngineState.IsIdle, hruns]
  cases killTurn_of_step hc h with
  | evict j _ _ hphase hover =>
    obtain rfl : phase = .evict j := hphase
    refine hrun (by simp) (hs.isIdle_of_isOver fun r hr hslot => ?_)
    refine hs.coherent.isOver_of_grip (EngineState.desk_grip hc) (fun k r hk => ?_) hr hslot
    exact EngineState.isOver_eq_true (Option.some.inj hk ▸ hover)
  | acquire =>
    have hlt := (List.getElem?_eq_some_iff.mp hc).1
    simp [hlt] at hdone
  | pass _ _ _ hfree hempty =>
    refine hrun (by simp) (hs.isIdle_of_isOver fun r hr hslot => ?_)
    exact hs.coherent.isOver_of_free hfree hempty hr hslot

end Reachable

/-- How far a kill has come since `runs` were all the runs there were. -/
structure Empties (e : Engine) (runs : List Run) (i : Nat) (slots : List Slot)
    (s : EngineState) : Prop where
  reachable : e.Reachable s
  kept : ∀ (j : Nat) (r : Run), runs[j]? = some r → ∃ r', s.runs[j]? = some r' ∧ r.Becomes r'
  exists_call : ∃ done rest phase, slots = done ++ rest ∧ s.calls[i]? = some ⟨.kill rest, phase⟩ ∧
    (∀ answer, phase = .done answer → rest = []) ∧
    ∀ (j : Nat) (r r' : Run), runs[j]? = some r → s.runs[j]? = some r' → r.slot ∈ done → r'.IsGone

theorem Empties.step {runs : List Run} {i : Nat} {slots : List Slot} {a : Action}
    (hs : e.Empties runs i slots s) (h : e.step s a = some s') :
    e.Empties runs i slots s' := by
  have hkept (j : Nat) (r : Run) (hr : runs[j]? = some r) :
      ∃ r₁ r', s.runs[j]? = some r₁ ∧ s'.runs[j]? = some r' ∧ r.Becomes r₁ ∧ r₁.Becomes r' := by
    obtain ⟨r₁, hr₁, hbecomes⟩ := hs.kept j r hr
    obtain ⟨r', hr', hnext⟩ := hs.reachable.coherent.becomes (desk_step h) hr₁
    exact ⟨r₁, r', hr₁, hr', hbecomes, hnext⟩
  refine ⟨hs.reachable.step h, fun j r hr => ?_, ?_⟩
  · obtain ⟨r₁, r', -, hr', hbecomes, hnext⟩ := hkept j r hr
    exact ⟨r', hr', hbecomes.trans hnext⟩
  obtain ⟨done, rest, phase, hslots, hc, hphase, hgone⟩ := hs.exists_call
  have hgone' (j : Nat) (r r' : Run) (hr : runs[j]? = some r) (hr' : s'.runs[j]? = some r')
      (hslot : r.slot ∈ done) : r'.IsGone := by
    obtain ⟨r₁, r₂, hr₁, hr₂, -, hnext⟩ := hkept j r hr
    obtain rfl := Option.some.inj (hr₂.symm.trans hr')
    exact hnext.isGone (hgone j r r₁ hr hr₁ hslot)
  have hset := List.getElem?_set_of_eq_some hc
  by_cases ha : a = .proceed i
  · subst ha
    have hturn := killTurn_of_step hc h
    cases rest with
    | nil =>
      obtain ⟨⟩ := hturn
      exact ⟨done, [], _, hslots, hset _, fun _ _ => rfl, hgone'⟩
    | cons slot rest =>
      rcases hturn.calls_eq with ⟨phase', hphase', hcalls⟩ | hcalls
      · exact ⟨done, slot :: rest, phase', hslots, by rw [hcalls, hset],
          fun answer hanswer => absurd hanswer (hphase' answer), hgone'⟩
      · have hcall : s'.calls[i]? = some ⟨.kill rest, .acquire⟩ := by rw [hcalls, hset]
        refine ⟨done ++ [slot], rest, .acquire, by simp [hslots], hcall, by simp, ?_⟩
        intro j r r' hr hr' hslot
        rcases List.mem_append.mp hslot with hslot | hslot
        · exact hgone' j r r' hr hr' hslot
        · obtain ⟨r₁, r₂, -, hr₂, hbecomes, hnext⟩ := hkept j r hr
          obtain rfl := Option.some.inj (hr₂.symm.trans hr')
          refine hs.reachable.isIdle_of_kill hc h hcall r₂ (List.mem_of_getElem? hr₂) ?_
          rw [(hbecomes.trans hnext).slot, List.mem_singleton.mp hslot]
  · exact ⟨done, rest, phase, hslots, (turn_of_step h).getElem?_calls hc ha, hphase, hgone'⟩

theorem empties_call (hs : e.Reachable s) (slots : List Slot)
    (h : e.step s (.call (.kill slots)) = some s') :
    e.Empties s.runs s.calls.length slots s' := by
  obtain rfl := Option.some.inj h
  refine ⟨hs.step h, fun j r hr => ⟨r, hr, .refl r⟩, [], slots, .acquire, rfl, ?_, by simp, ?_⟩
  · exact List.getElem?_concat_length ..
  · intro j r r' _ _ hslot
    contradiction

/-- What holds of the slots of an engine and of the processes in them. -/
structure Occupied (e : Engine) (s : EngineState) : Prop where
  /-- A slot has at most one live process. -/
  single : ∀ (j k : Nat) (r r' : Run), s.runs[j]? = some r → s.runs[k]? = some r' →
    r.slot = r'.slot → r.isAlive → r'.isAlive → j = k
  /-- The end of a process is told at most once. -/
  once : ∀ r ∈ s.runs, r.endings.length ≤ 1
  /-- The end of a process is not told while it is alive. -/
  gone : ∀ r ∈ s.runs, r.isAlive → r.endings = []
  /-- Once the end of a process is told, nothing becomes of it any more. -/
  settled : ∀ (a : Action) (s' : EngineState) (j : Nat) (r : Run), e.step s a = some s' →
    s.runs[j]? = some r → r.endings ≠ [] →
    ∃ r', s'.runs[j]? = some r' ∧ r'.life = r.life ∧ r'.notices = r.notices
  /-- When a process is spawned its slot is idle. -/
  spawned : ∀ (a : Action) (s' : EngineState), e.step s a = some s' →
    ∀ r ∈ s'.runs.drop s.runs.length, s.IsIdle r.slot
  /-- When the kill of a slot is done the slot is idle. -/
  emptied : ∀ (i : Nat) (slot : Slot) (rest : List Slot) (phase : Phase) (s' : EngineState),
    s.calls[i]? = some ⟨.kill (slot :: rest), phase⟩ → e.step s (.proceed i) = some s' →
    s'.calls[i]? = some ⟨.kill rest, .acquire⟩ → s'.IsIdle slot
  /-- After a kill of slots the processes that were in them before are gone. -/
  killed : ∀ (slots : List Slot) (actions : List Action) (s' : EngineState),
    e.steps s (.call (.kill slots) :: actions) = some s' → s'.answer? s.calls.length ≠ none →
    ∀ (j : Nat) (r : Run), s.runs[j]? = some r → r.slot ∈ slots →
    ∃ r', s'.runs[j]? = some r' ∧ r'.IsGone
  /-- To kill an empty slot is to do nothing. -/
  empty : ∀ (i : Nat) (slot : Slot) (rest : List Slot),
    s.calls[i]? = some ⟨.kill (slot :: rest), .acquire⟩ → s.seat slot = ⟨none, none⟩ →
    e.step s (.proceed i) = some (s.setCall i ⟨.kill rest, .acquire⟩)
  /-- A call leaves the slots that it is not about. -/
  apart : ∀ (job : Job) (slot : Slot) (actions : List Action) (t t' : EngineState),
    e.steps s (.call job :: actions) = some t → e.step t (.proceed s.calls.length) = some t' →
    slot ∉ job.slots → t.desk.Untouched slot t'.desk

def sample : Engine where
  pow := Float.pow
  config := .standard "/tmp"
  binary := "/bin/processor"
  place := []

def sampleFiles : FileTree :=
  ⟨[(["bin"], .directory), (["bin", "processor"], .file [] true), (["tmp"], .directory)]⟩

/-- Two previews, the second of which takes the place of the first. -/
def succession : List Action :=
  let preview := .call (.start (.ofMode .preview))
  preview :: List.replicate 5 (Action.proceed 0) ++ preview :: List.replicate 2 (Action.proceed 1)
    ++ List.replicate 2 (Action.watch 0) ++ List.replicate 4 (Action.proceed 1)

end Engine

end Montage
