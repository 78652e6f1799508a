/-!
Reading numbers from text.  Whole numbers may have one plus sign and any number of leading zeros;
a fraction may leave out either side of the point but not both.  A decimal becomes the double
nearest to its exact value.
-/

namespace Montage.Decimal

def digitValue (c : Char) : Nat := c.toNat - '0'.toNat

def ofDigitChars (cs : List Char) : Nat :=
  cs.foldl (fun n c => 10 * n + digitValue c) 0

/-- One or more digits, after at most one plus sign, for a number below `bound`. -/
def readWhole? (bound : Nat) (cs : List Char) : Option Nat :=
  let ds := match cs with
    | '+' :: rest => rest
    | _ => cs
  if ds.isEmpty || !ds.all Char.isDigit then none
  else if ofDigitChars ds < bound then some (ofDigitChars ds) else none

/-- The double nearest to plus or minus `mantissa * 10 ^ exponent`.  Powers far outside the range
of doubles are answered without being computed. -/
def nearest (negative : Bool) (mantissa : Nat) (exponent : Int) : Float :=
  let size : Int := (Nat.toDigits 10 mantissa).length + exponent
  let x : Float :=
    if mantissa = 0 ∨ size < -400 then 0.0
    else if 400 < size then 1.0 / 0.0
    else match exponent with
      | .ofNat k => Float.ofScientific mantissa false k
      | .negSucc k => Float.ofScientific mantissa true (k + 1)
  if negative then -x else x

/-- An unsigned decimal as it stands in a text: its digits as one number, the power of ten that
the point and the exponent leave, and whether it was written without either. -/
structure Written where
  mantissa : Nat
  exponent : Int
  whole : Bool
  deriving DecidableEq, Repr

def spanDigits (cs : List Char) : List Char × List Char := cs.span Char.isDigit

/-- An exponent mark with its sign and digits; `none` when the mark stands without digits. -/
def readPower? : List Char → Option Int
  | '+' :: ds => digits? ds
  | '-' :: ds => (digits? ds).map (- ·)
  | ds => digits? ds
where
  digits? (ds : List Char) : Option Int :=
    if ds.isEmpty || !ds.all Char.isDigit then none else some (ofDigitChars ds)

def readUnsigned? (cs : List Char) : Option Written :=
  let (whole, rest) := spanDigits cs
  let (fraction, tail, pointed) := match rest with
    | '.' :: more => ((spanDigits more).1, (spanDigits more).2, true)
    | _ => ([], rest, false)
  if whole.isEmpty && fraction.isEmpty then none
  else
    let mantissa := ofDigitChars (whole ++ fraction)
    match tail with
    | [] => some ⟨mantissa, -(fraction.length : Int), !pointed⟩
    | c :: ds =>
      if c = 'e' ∨ c = 'E' then
        (readPower? ds).map fun p => ⟨mantissa, p - (fraction.length : Int), false⟩
      else none

/-- A decimal, or a name of an infinity or of what is no number, in any letter case. -/
def readFloat? (cs : List Char) : Option Float :=
  match cs with
  | '+' :: rest => unsigned? false rest
  | '-' :: rest => unsigned? true rest
  | _ => unsigned? false cs
where
  unsigned? (negative : Bool) (cs : List Char) : Option Float :=
    let word := String.ofList (cs.map Char.toLower)
    if word = "inf" ∨ word = "infinity" then some (if negative then -(1.0 / 0.0) else 1.0 / 0.0)
    else if word = "nan" then some (0.0 / 0.0)
    else (readUnsigned? cs).map fun w => nearest negative w.mantissa w.exponent

end Montage.Decimal
