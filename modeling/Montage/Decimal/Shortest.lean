import Montage.Decimal.Exact

/-!
The shortest decimal that reads back to a given double: the fewest digits, and among those the
nearest to the exact value.  The search walks the decimal grids from one digit upwards and tests
the two grid points beside the value, in exact arithmetic throughout.
-/

namespace Montage.Decimal

structure Digits where
  digits : Nat
  exponent : Int
  deriving DecidableEq, Repr

/-- Which of two equally near decimals is taken. -/
inductive Tie
  | up
  | even
  deriving DecidableEq, Repr

/-- The reals that round to one double, as numerators over `den`, with the double itself between;
the ends belong to it when `closed` holds. -/
structure Basin where
  low : Nat
  value : Nat
  high : Nat
  den : Nat
  closed : Bool
  deriving Repr

/-- The reals that round to `m * 2 ^ q`.  Below a power of two the doubles lie twice as close. -/
def Basin.ofBinary (m : Nat) (q : Int) : Basin :=
  let below := if m = Nat.pow 2 52 ∧ -1074 < q then 1 else 2
  let unit := Ratio.ofBinary 1 (q - 2)
  { low := (4 * m - below) * unit.num
    value := 4 * m * unit.num
    high := (4 * m + 2) * unit.num
    den := unit.den
    closed := m % 2 = 0 }

/-- The same reals counted in steps of `10 ^ exponent`. -/
def Basin.scaleDown (b : Basin) : Int → Basin
  | .ofNat k => { b with den := b.den * Nat.pow 10 k }
  | .negSucc k =>
    { b with
      low := b.low * Nat.pow 10 (k + 1)
      value := b.value * Nat.pow 10 (k + 1)
      high := b.high * Nat.pow 10 (k + 1) }

def Basin.contains (b : Basin) (d : Nat) : Bool :=
  if b.closed then b.low ≤ d * b.den ∧ d * b.den ≤ b.high
  else b.low < d * b.den ∧ d * b.den < b.high

/-- The whole number in the basin that is nearest to the value. -/
def Basin.nearest? (b : Basin) (tie : Tie) : Option Nat :=
  let d := b.value / b.den
  let rest := 2 * (b.value - d * b.den)
  match b.contains d, b.contains (d + 1) with
  | false, false => none
  | true, false => some d
  | false, true => some (d + 1)
  | true, true =>
    if rest < b.den then some d
    else if b.den < rest then some (d + 1)
    else match tie with
      | .up => some (d + 1)
      | .even => some (d + d % 2)

/-- The power of ten just above `m * 2 ^ q`: it is at most that number's ten-fold. -/
def magnitude (m : Nat) (q : Int) : Int :=
  let guess := (((Nat.log2 m : Int) + q) * 30103).fdiv 100000
  if (Ratio.ofBinary m q).scaleDown (guess + 1) |>.floor |> (· = 0) then guess + 1 else guess + 2

/-- The first grid, from `count` digits on, with a point that reads back. -/
def searchGrids (b : Basin) (tie : Tie) (top : Int) : Nat → Nat → Option Digits
  | 0, _ => none
  | fuel + 1, count =>
    let e := top - count
    match (b.scaleDown e).nearest? tie with
    | some d => some ⟨d, e⟩
    | none => searchGrids b tie top fuel (count + 1)

def stripZeros : Nat → Nat → Int → Digits
  | 0, d, e => ⟨d, e⟩
  | fuel + 1, d, e =>
    if d ≠ 0 ∧ d % 10 = 0 then stripZeros fuel (d / 10) (e + 1) else ⟨d, e⟩

/-- The digits for `m * 2 ^ q` with `m` positive.  Seventeen always suffice. -/
def shortest (tie : Tie) (m : Nat) (q : Int) : Digits :=
  match searchGrids (Basin.ofBinary m q) tie (magnitude m q) 17 1 with
  | some d => stripZeros 17 d.digits d.exponent
  | none => ⟨m, q⟩

end Montage.Decimal
