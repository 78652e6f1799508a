import Montage.Decimal.Text

/-!
JSON values and how they are written.  An object keeps its members in the order given; writing is
either compact or spread over lines with two spaces a level.
-/

namespace Montage.Json

/-- A number is whole as long as its double word has room for it, and a double otherwise. -/
inductive Number
  | whole (n : Int)
  | real (x : Float)
  deriving DecidableEq, Repr

inductive Value
  | null
  | bool (b : Bool)
  | number (n : Number)
  | string (s : String)
  | array (items : List Value)
  | object (members : List (String × Value))

namespace Value

def ofNat (n : Nat) : Value := .number (.whole n)

def ofFloat (x : Float) : Value := .number (.real x)

def ofOption {α : Type} (f : α → Value) : Option α → Value
  | none => .null
  | some a => f a

end Value

def hex4 (n : Nat) : List Char :=
  let ds := Nat.toDigits 16 n
  List.replicate (4 - ds.length) '0' ++ ds

def escapeChar (c : Char) : List Char :=
  if c = '"' then ['\\', '"']
  else if c = '\\' then ['\\', '\\']
  else if c = '\n' then ['\\', 'n']
  else if c = '\r' then ['\\', 'r']
  else if c = '\t' then ['\\', 't']
  else if c.toNat = 8 then ['\\', 'b']
  else if c.toNat = 12 then ['\\', 'f']
  else if c.toNat < 32 then '\\' :: 'u' :: hex4 c.toNat
  else [c]

def writeString (s : String) : List Char :=
  '"' :: s.toList.flatMap escapeChar ++ ['"']

/-- What is not finite is written as nothing. -/
def Number.write : Number → List Char
  | .whole n => Decimal.signed (n < 0) (Decimal.digitChars n.natAbs)
  | .real x => if x.isFinite then Decimal.dataForm.write x else "null".toList

mutual

def Value.write : Value → List Char
  | .null => "null".toList
  | .bool b => (if b then "true" else "false").toList
  | .number n => n.write
  | .string s => writeString s
  | .array items => '[' :: writeItems items ++ [']']
  | .object members => '\x7b' :: writeMembers members ++ ['\x7d']

def writeItems : List Value → List Char
  | [] => []
  | [v] => v.write
  | v :: rest => v.write ++ ',' :: writeItems rest

def writeMembers : List (String × Value) → List Char
  | [] => []
  | [(k, v)] => writeString k ++ ':' :: v.write
  | (k, v) :: rest => writeString k ++ ':' :: v.write ++ ',' :: writeMembers rest

end

def Value.compact (v : Value) : String := String.ofList v.write

def newline (level : Nat) : List Char := '\n' :: List.replicate (2 * level) ' '

mutual

def Value.spread (level : Nat) : Value → List Char
  | .array [] => ['[', ']']
  | .array items =>
    '[' :: newline (level + 1) ++ spreadItems level items ++ newline level ++ [']']
  | .object [] => ['\x7b', '\x7d']
  | .object members =>
    '\x7b' :: newline (level + 1) ++ spreadMembers level members ++ newline level ++ ['\x7d']
  | .null => Value.null.write
  | .bool b => (Value.bool b).write
  | .number n => n.write
  | .string s => writeString s

def spreadItems (level : Nat) : List Value → List Char
  | [] => []
  | [v] => v.spread (level + 1)
  | v :: rest => v.spread (level + 1) ++ ',' :: newline (level + 1) ++ spreadItems level rest

def spreadMembers (level : Nat) : List (String × Value) → List Char
  | [] => []
  | [(k, v)] => writeString k ++ ':' :: ' ' :: v.spread (level + 1)
  | (k, v) :: rest =>
    writeString k ++ ':' :: ' ' :: v.spread (level + 1) ++ ',' :: newline (level + 1)
      ++ spreadMembers level rest

end

def Value.pretty (v : Value) : String := String.ofList (v.spread 0)

end Montage.Json
