import Montage.Decimal.Shortest

/-!
The written forms of a double.  A plain number never has an exponent and drops a fraction of
zero; a data number always shows that it is a fraction and turns to an exponent when the digits
would run long; a fixed number has a given count of places.
-/

namespace Montage.Decimal

def digitChars (n : Nat) : List Char := Nat.toDigits 10 n

def zeros (n : Nat) : List Char := List.replicate n '0'

/-- `digits * 10 ^ exponent` with the point written out; `whole` follows a number that has no
fraction. -/
def positional (d : Digits) (whole : List Char) : List Char :=
  let ds := digitChars d.digits
  match d.exponent with
  | .ofNat k => ds ++ zeros k ++ whole
  | .negSucc k =>
    let places := k + 1
    if places < ds.length then
      ds.take (ds.length - places) ++ '.' :: ds.drop (ds.length - places)
    else '0' :: '.' :: zeros (places - ds.length) ++ ds

/-- One digit before the point, then the power of ten with its sign. -/
def scientific (d : Digits) : List Char :=
  let ds := digitChars d.digits
  let power := d.exponent + (ds.length - 1 : Nat)
  let mantissa := match ds with
    | [] => []
    | [c] => [c]
    | c :: rest => c :: '.' :: rest
  mantissa ++ 'e' :: (if power < 0 then '-' else '+') :: digitChars power.natAbs

def signed (negative : Bool) (cs : List Char) : List Char :=
  if negative then '-' :: cs else cs

/-- How a finite, a missing and an infinite number are written. -/
structure Form where
  tie : Tie
  /-- Follows a number without a fraction. -/
  whole : List Char
  /-- Whether a number whose first digit counts `10 ^ power` is written out. -/
  isPositional : Int → Bool
  nan : List Char
  infinite : List Char

def Form.write (f : Form) (x : Float) : List Char :=
  match Exact.ofFloat x with
  | .nan => f.nan
  | .infinite negative => signed negative f.infinite
  | .finite negative m q =>
    if m = 0 then signed negative ('0' :: f.whole)
    else
      let d := shortest f.tie m q
      let power := d.exponent + ((digitChars d.digits).length - 1 : Nat)
      signed negative (if f.isPositional power then positional d f.whole else scientific d)

/-- Filter texts and messages: never an exponent, nothing after a whole number. -/
def plainForm : Form where
  tie := .up
  whole := []
  isPositional _ := true
  nan := "NaN".toList
  infinite := "inf".toList

/-- Data: a whole number below `10 ^ 16` shows a fraction of zero, and powers outside -5 to 15
are written as exponents.  What is no number is written as nothing. -/
def dataForm : Form where
  tie := .even
  whole := ".0".toList
  isPositional power := -5 ≤ power ∧ power ≤ 15
  nan := "null".toList
  infinite := "null".toList

def plain (x : Float) : String := String.ofList (plainForm.write x)

/-- The exact value rounded to `places` digits after the point, halves to even. -/
def fixed (places : Nat) (x : Float) : String :=
  match Exact.ofFloat x with
  | .nan => "NaN"
  | .infinite negative => if negative then "-inf" else "inf"
  | .finite negative m q =>
    let scaled := ((Ratio.ofBinary m q).scaleDown (-places)).roundHalfEven
    let ds := digitChars scaled
    let padded := zeros (places + 1 - ds.length) ++ ds
    let cut := padded.length - places
    let point := if places = 0 then [] else ['.']
    String.ofList (signed negative (padded.take cut ++ point ++ padded.drop cut))

end Montage.Decimal
