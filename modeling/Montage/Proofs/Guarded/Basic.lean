import Mathlib
import Montage.Proofs.Verdict

/-!
Compiling with a guard on every step.  Sums are kept in a word, and whatever is looked up has to be
there; a step that cannot be taken is a trap, which is something else than a request that is turned
down.  The definitions in this namespace are those of the same name outside, step for step.
-/

namespace Montage

/-- A step that cannot be taken. -/
inductive Trap
  | overflow (o : Overflow)
  | outOfRange (index : Nat)
  /-- A table of counts is read at a pad that has none. -/
  | uncounted (p : Pad)
  /-- The finished graph breaks the rule of edges. -/
  | unlinked (e : EdgeError)
  deriving DecidableEq, Repr

namespace Guarded

variable {α β : Type}

/-- The sum of two counts. -/
def add (a b : Nat) : Except Trap Nat :=
  if a + b < UInt64.size then .ok (a + b) else .error (.overflow .add)

def lookup (xs : List α) (i : Nat) : Except Trap α :=
  match xs[i]? with
  | some x => .ok x
  | none => .error (.outOfRange i)

theorem add_eq_ok {a b : Nat} (h : a + b < UInt64.size) : add a b = .ok (a + b) := if_pos h

theorem lookup_eq_ok {xs : List α} {i : Nat} {x : α} (h : xs[i]? = some x) :
    lookup xs i = .ok x := by
  rw [lookup, h]

/-- Compiling under guard: it traps, or it turns the request down, or it has a result. -/
abbrev Compilation (α : Type) : Type := ExceptT CompileError (Except Trap) α

theorem liftExcept_bind (a : α) (f : α → Compilation β) :
    ((liftExcept (Except.ok a : Except CompileError α) : Compilation α) >>= f) = f a :=
  rfl

theorem liftM_bind (a : α) (f : α → Compilation β) :
    ((liftM (Except.ok a : Except Trap α) : Compilation α) >>= f) = f a :=
  rfl

/-- A rejection is an answer, and any other fault a trap. -/
def settle : Except Fault α → Compilation α
  | .ok a => pure a
  | .error (.rejected e) => throw e
  | .error (.overflow o) => throwThe Trap (.overflow o)
  | .error (.unknownSource id) => throwThe Trap (.outOfRange id)
  | .error (.unlinked e) => throwThe Trap (.unlinked e)

theorem settle_ok_bind (a : α) (f : α → Compilation β) : (settle (.ok a) >>= f) = f a := rfl

theorem settle_bind (x : Except Fault α) (f : α → Except Fault β) :
    settle (x >>= f) = settle x >>= fun a => settle (f a) := by
  cases x with
  | ok a => rfl
  | error fault => cases fault <;> rfl

theorem run_settle_ofRejection (result : Except CompileError α) :
    (settle (Fault.ofRejection result)).run = .ok result := by
  cases result <;> rfl

end Guarded

end Montage
