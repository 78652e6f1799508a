/-!
Arithmetic on words that refuses to wrap: an operation whose exact result does not fit is an
error that says which operation it was.
-/

namespace Montage

/-- The operation that has no result in its word. -/
inductive Overflow
  | add
  | subtract
  | multiply
  | divideByZero
  deriving DecidableEq, Repr

def Overflow.message : Overflow → String
  | .add => "attempt to add with overflow"
  | .subtract => "attempt to subtract with overflow"
  | .multiply => "attempt to multiply with overflow"
  | .divideByZero => "attempt to divide by zero"

namespace Word

def add (a b : UInt32) : Except Overflow UInt32 :=
  if a.toNat + b.toNat < UInt32.size then .ok (a + b) else .error .add

def sub (a b : UInt32) : Except Overflow UInt32 :=
  if b ≤ a then .ok (a - b) else .error .subtract

def mul (a b : UInt64) : Except Overflow UInt64 :=
  if a.toNat * b.toNat < UInt64.size then .ok (a * b) else .error .multiply

def div (a b : UInt64) : Except Overflow UInt64 :=
  if b = 0 then .error .divideByZero else .ok (a / b)

def narrow? (a : UInt64) : Option UInt32 :=
  if a.toNat < UInt32.size then some a.toUInt32 else none

theorem add_eq_ok {a b : UInt32} (h : a.toNat + b.toNat < UInt32.size) : add a b = .ok (a + b) :=
  if_pos h

theorem sub_eq_ok {a b : UInt32} (h : b ≤ a) : sub a b = .ok (a - b) :=
  if_pos h

theorem mul_eq_ok {a b : UInt64} (h : a.toNat * b.toNat < UInt64.size) : mul a b = .ok (a * b) :=
  if_pos h

theorem div_eq_ok {a b : UInt64} (h : b ≠ 0) : div a b = .ok (a / b) :=
  if_neg h

end Word

end Montage
