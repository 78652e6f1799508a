import Mathlib
import Montage.Proofs.Command.Validity
import Montage.Proofs.Engine.Exports

/-!
A job whose request has no command.  The engine answers it at once with what is wrong, before it
touches a slot or a file, and nothing that goes wrong later is blamed on the request.
-/

namespace Montage

/-- What is wrong with the request of a job, in the order it is looked for. -/
def Job.faults : Job → List CompileError
  | .start r => r.faultsFor .encode
  | .exportFile r =>
    complain (Operation.exportFile.allows r.mode) (.invalidMode r.mode .exportFile)
      ++ r.faultsFor .encode
  | .thumbnails r => r.faultsFor .thumbnails
  | .kill _ => []

/-- The call has not been answered with a complaint about its request. -/
def Call.IsBlameless (c : Call) : Prop :=
  ∀ error, c.phase = .done (.error error) → error.isCompile = false

namespace Engine

variable {e : Engine} {s s' : EngineState} {job : Job} {actions : List Action}

theorem compile_eq_error_iff {f : Fault} :
    e.compile job = .error f ↔ ∃ c, job.faults.head? = some c ∧ f = .rejected c := by
  have hbind {op : Operation} {r : Request} {g : Command → Errand} :
      (r.compileFor e.pow op >>= fun c => .ok (g c)) = .error f ↔
        ∃ c, (r.faultsFor op).head? = some c ∧ f = .rejected c := by
    have hcompile : r.compileFor e.pow op = .error f ↔ _ := Request.compileFor_eq_error_iff
    rw [← hcompile]
    cases r.compileFor e.pow op <;> simp [bind, Except.bind]
  cases job with
  | start r => exact hbind
  | thumbnails r => exact hbind
  | exportFile r =>
    by_cases hmode : Operation.exportFile.allows r.mode
    · simp only [compile, Operation.check, hmode, Job.faults, complain]
      exact hbind
    · simp [compile, Operation.check, hmode, Job.faults, complain, Fault.ofRejection, bind,
        Except.bind, eq_comm]
  | kill slots => simp [compile, Job.faults, pure, Except.pure]

theorem begin_eq_of_error {f : Fault} (h : e.compile job = .error f) :
    e.begin job = ⟨.kill [], .done (.error (.compile f))⟩ := by
  rw [begin, h]

theorem isBlameless_begin {errand : Errand} (h : e.compile job = .ok errand) :
    (e.begin job).IsBlameless := by
  intro error herror
  unfold begin at herror
  rw [h] at herror
  split at herror <;> simp_all

/-- No step of a call comes to a complaint about its request. -/
theorem isBlameless_step {a : Action} (h : e.step s a = some s') {i : Nat} {c : Call}
    (hc : s.calls[i]? = some c) (hblameless : c.IsBlameless) :
    ∃ c', s'.calls[i]? = some c' ∧ c'.IsBlameless := by
  have hturn := turn_of_step h
  by_cases ha : a = .proceed i
  · subst ha
    have hset := List.getElem?_set_of_eq_some hc
    cases hturn with
    | launch _ c₀ slot command waits hc₀ herrand hturn =>
      obtain rfl := Option.some.inj (hc.symm.trans hc₀)
      obtain ⟨phase, honward, hcalls⟩ := hturn.onward
      exact ⟨{ c with phase }, by rw [hcalls, hset], honward.isCompile⟩
    | kill _ c₀ slots hc₀ herrand hturn =>
      obtain rfl := Option.some.inj (hc.symm.trans hc₀)
      obtain ⟨slots', phase, hphase, hcalls⟩ := hturn.onward herrand
      exact ⟨⟨.kill slots', phase⟩, by rw [hcalls, hset],
        fun error herror => absurd herror (hphase error)⟩
  · exact ⟨c, hturn.getElem?_calls hc ha, hblameless⟩

theorem isBlameless_steps {errand : Errand} (hcompile : e.compile job = .ok errand)
    (h : e.steps s (.call job :: actions) = some s') :
    ∃ c, s'.calls[s.calls.length]? = some c ∧ c.IsBlameless := by
  obtain ⟨t, ht, hrest⟩ := steps_cons.mp h
  obtain rfl := Option.some.inj ht
  refine steps_keep (P := fun t => ∃ c, t.calls[s.calls.length]? = some c ∧ c.IsBlameless)
    (fun t t' a ht hstep => ?_) ?_ hrest
  · obtain ⟨c, hc, hblameless⟩ := ht
    exact isBlameless_step hstep hc hblameless
  · exact ⟨e.begin job, List.getElem?_concat_length .., isBlameless_begin hcompile⟩

/-- What becomes of a job in a state, as far as its request is to blame. -/
structure Refuses (e : Engine) (s : EngineState) (job : Job) : Prop where
  /-- A job is refused for the first thing that is wrong with its request. -/
  faults : ∀ f, e.compile job = .error f ↔ ∃ c, job.faults.head? = some c ∧ f = .rejected c
  /-- All that comes of a refusal is the answer: the files, the runs with what their callers have
  been told, the slots and the other calls stay as they are. -/
  refused : ∀ f, e.compile job = .error f → e.step s (.call job) =
    some { s with calls := s.calls ++ [⟨.kill [], .done (.error (.compile f))⟩] }
  /-- A call that is refused never does anything, whatever else happens. -/
  idle : ∀ f actions s', e.compile job = .error f → e.steps s (.call job :: actions) = some s' →
    s'.answer? s.calls.length = some (.error (.compile f)) ∧
      e.step s' (.proceed s.calls.length) = none
  /-- A complaint about the request is the answer only if the request has no command. -/
  only : ∀ actions s' error, e.steps s (.call job :: actions) = some s' →
    s'.answer? s.calls.length = some (.error error) → error.isCompile →
    ∃ f, e.compile job = .error f ∧ error = .compile f

theorem refuses (e : Engine) (s : EngineState) (job : Job) : e.Refuses s job where
  faults f := compile_eq_error_iff
  refused f hf := by rw [step, begin_eq_of_error hf]
  idle f actions s' hf h := by
    have hanswer := answer_of_compile_eq_error hf h
    exact ⟨hanswer, step_proceed_of_answer hanswer⟩
  only actions s' error h hanswer herror := by
    cases hcompile : e.compile job with
    | ok errand =>
      obtain ⟨errand', hc⟩ := exists_call_of_answer hanswer
      obtain ⟨c, hc', hblameless⟩ := isBlameless_steps hcompile h
      obtain rfl := Option.some.inj (hc.symm.trans hc')
      rw [hblameless error rfl] at herror
      contradiction
    | error f =>
      rw [answer_of_compile_eq_error hcompile h] at hanswer
      exact ⟨f, rfl, (Except.error.inj (Option.some.inj hanswer)).symm⟩

end Engine

end Montage
