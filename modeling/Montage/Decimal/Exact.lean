/-!
The exact value of a double: a sign, a mantissa and a power of two.  Every text form and every
rounding to whole numbers starts from here, so none of them depends on how an operation on
doubles rounds.
-/

namespace Montage.Decimal

/-- What a double stands for: no number, a signed infinity, or plus or minus
`mantissa * 2 ^ exponent`. -/
inductive Exact
  | nan
  | infinite (negative : Bool)
  | finite (negative : Bool) (mantissa : Nat) (exponent : Int)
  deriving DecidableEq, Repr

def Exact.isNegativeSign : Float.Model.UnpackedFloat.Sign → Bool
  | .positive => false
  | .negative => true

def Exact.ofUnpacked : Float.Model.UnpackedFloat → Exact
  | .notANumber => .nan
  | .infinity s => .infinite (isNegativeSign s)
  | .zero s => .finite (isNegativeSign s) 0 0
  | .finite s m q _ => .finite (isNegativeSign s) m q

def Exact.ofFloat (x : Float) : Exact := ofUnpacked x.toModel.unpack

/-- A non-negative rational, kept as a quotient with a positive divisor. -/
structure Ratio where
  num : Nat
  den : Nat
  deriving DecidableEq, Repr

def Ratio.ofBinary (mantissa : Nat) : Int → Ratio
  | .ofNat k => ⟨mantissa * Nat.pow 2 k, 1⟩
  | .negSucc k => ⟨mantissa, Nat.pow 2 (k + 1)⟩

def Ratio.scaleDown (r : Ratio) : Int → Ratio
  | .ofNat k => ⟨r.num, r.den * Nat.pow 10 k⟩
  | .negSucc k => ⟨r.num * Nat.pow 10 (k + 1), r.den⟩

def Ratio.floor (r : Ratio) : Nat := r.num / r.den

/-- The nearest whole number; a half goes up. -/
def Ratio.roundHalfUp (r : Ratio) : Nat := (2 * r.num + r.den) / (2 * r.den)

/-- The nearest whole number; a half goes to the even neighbour. -/
def Ratio.roundHalfEven (r : Ratio) : Nat :=
  let d := r.floor
  let twice := 2 * (r.num - d * r.den)
  if twice < r.den then d
  else if r.den < twice then d + 1
  else d + d % 2

/-- The double rounded to the nearest whole number, halves up, and kept between zero and
`limit`; no number counts as zero. -/
def roundWithin (limit : Nat) (x : Float) : Nat :=
  match Exact.ofFloat x with
  | .nan => 0
  | .infinite negative => if negative then 0 else limit
  | .finite negative m q =>
    if negative then 0 else min (Ratio.ofBinary m q).roundHalfUp limit

end Montage.Decimal
