import Montage.Script.Basic

/-!
What words come to: values put in for names, unquoted values split at blanks, and patterns matched.
-/

namespace Montage.Script

/-- What names stand for while a script runs. -/
structure Scope where
  name : String
  args : List String
  bindings : List (String × String)
  status : Nat

namespace Scope

def set (s : Scope) (name value : String) : Scope :=
  { s with bindings := (name, value) :: s.bindings.filter (·.1 != name) }

def value? (s : Scope) (name : String) : Option String :=
  match name with
  | "#" => some (toString s.args.length)
  | "?" => some (toString s.status)
  | "@" | "*" => some (String.intercalate " " s.args)
  | "$" => some "1"
  | "0" => some s.name
  | _ => match name.toNat? with
    | some n => s.args[n - 1]?
    | none => s.bindings.lookup name

def value (s : Scope) (name : String) (fallback : Option (List Char)) : List Char :=
  match s.value? name, fallback with
  | some v, none => v.toList
  | some v, some word => if v.isEmpty then word else v.toList
  | none, some word => word
  | none, none => []

end Scope

/-! ## Arithmetic -/

mutual

def sumTerms (scope : Scope) : Nat → Int → List Char → Int × List Char
  | 0, acc, cs => (acc, cs)
  | fuel + 1, acc, cs =>
    match cs.dropWhile Char.isWhitespace with
    | '+' :: rest =>
      let (n, rest) := product scope fuel rest
      sumTerms scope fuel (acc + n) rest
    | '-' :: rest =>
      let (n, rest) := product scope fuel rest
      sumTerms scope fuel (acc - n) rest
    | rest => (acc, rest)

def product (scope : Scope) : Nat → List Char → Int × List Char
  | 0, cs => (0, cs)
  | fuel + 1, cs =>
    let (n, rest) := factor scope fuel cs
    productTerms scope fuel n rest

def productTerms (scope : Scope) : Nat → Int → List Char → Int × List Char
  | 0, acc, cs => (acc, cs)
  | fuel + 1, acc, cs =>
    match cs.dropWhile Char.isWhitespace with
    | '*' :: rest =>
      let (n, rest) := factor scope fuel rest
      productTerms scope fuel (acc * n) rest
    | '/' :: rest =>
      let (n, rest) := factor scope fuel rest
      productTerms scope fuel (acc.tdiv n) rest
    | '%' :: rest =>
      let (n, rest) := factor scope fuel rest
      productTerms scope fuel (acc.tmod n) rest
    | rest => (acc, rest)

def factor (scope : Scope) : Nat → List Char → Int × List Char
  | 0, cs => (0, cs)
  | fuel + 1, cs =>
    let named (cs : List Char) : Int × List Char :=
      let (name, rest) := cs.span fun c => c.isAlphanum || c = '_'
      (((String.ofList (scope.value (String.ofList name) none)).toInt?).getD 0, rest)
    match cs.dropWhile Char.isWhitespace with
    | '(' :: rest =>
      let (n, rest) := product scope fuel rest
      let (n, rest) := sumTerms scope fuel n rest
      (n, (rest.dropWhile Char.isWhitespace).drop 1)
    | '-' :: rest =>
      let (n, rest) := factor scope fuel rest
      (-n, rest)
    | '$' :: rest => named rest
    | c :: rest =>
      if c.isDigit then
        let (ds, rest) := (c :: rest).span Char.isDigit
        (((String.ofList ds).toNat?.getD 0 : Nat), rest)
      else named (c :: rest)
    | [] => (0, [])

end

def arithmetic (scope : Scope) (cs : List Char) : Int :=
  let fuel := 4 * cs.length + 4
  let (n, rest) := product scope fuel cs
  (sumTerms scope fuel n rest).1

/-! ## Words -/

def Piece.plain (scope : Scope) : Piece → List Char
  | .text s _ => s
  | .value name fallback _ => scope.value name fallback
  | .sum e _ => (toString (arithmetic scope e)).toList

def Word.join (scope : Scope) (w : Word) : String :=
  String.ofList (List.flatMap (Piece.plain scope) w)

/-- Finished fields, last first, and the one still growing. -/
structure Fields where
  done : List String
  growing : Option (List Char)

namespace Fields

def extend (f : Fields) (cs : List Char) : Fields :=
  { f with growing := some (f.growing.getD [] ++ cs) }

def finish (f : Fields) : Fields :=
  match f.growing with
  | none => f
  | some cs => ⟨String.ofList cs :: f.done, none⟩

/-- Adds a text that is split at its blanks. -/
def addSplit (f : Fields) : List Char → Fields
  | [] => f
  | c :: rest =>
    if c = ' ' || c = '\t' || c = '\n' then f.finish.addSplit rest
    else (f.extend [c]).addSplit rest

def addEach (f : Fields) : List String → Fields
  | [] => f
  | [s] => f.extend s.toList
  | s :: rest => (f.extend s.toList).finish.addEach rest

def add (scope : Scope) (f : Fields) : Piece → Fields
  | .text s _ => f.extend s
  | .value "@" _ true => f.addEach scope.args
  | p@(.value _ _ quoted) =>
    if quoted then f.extend (p.plain scope) else f.addSplit (p.plain scope)
  | p@(.sum _ _) => f.extend (p.plain scope)

end Fields

def Word.fields (scope : Scope) (w : Word) : List String :=
  (List.foldl (Fields.add scope) ⟨[], none⟩ w).finish.done.reverse

/-! ## Patterns -/

inductive PatternItem
  | char (c : Char)
  | one
  | any
  | oneOf (excluded : Bool) (ranges : List (Char × Char))

def readRanges : List Char → List (Char × Char)
  | a :: '-' :: b :: rest => (a, b) :: readRanges rest
  | a :: rest => (a, a) :: readRanges rest
  | [] => []

def readPattern : Nat → List Char → List PatternItem
  | _, [] => []
  | 0, cs => cs.map .char
  | fuel + 1, '*' :: rest => .any :: readPattern fuel rest
  | fuel + 1, '?' :: rest => .one :: readPattern fuel rest
  | fuel + 1, '[' :: rest =>
    let (inner, after) := rest.span (· ≠ ']')
    match after, inner with
    | _ :: after, '!' :: inner => .oneOf true (readRanges inner) :: readPattern fuel after
    | _ :: after, inner => .oneOf false (readRanges inner) :: readPattern fuel after
    | [], _ => .char '[' :: readPattern fuel rest
  | fuel + 1, c :: rest => .char c :: readPattern fuel rest

def Piece.pattern (scope : Scope) : Piece → List PatternItem
  | .text s false => readPattern (s.length + 1) s
  | p => (p.plain scope).map .char

def matches? : List PatternItem → List Char → Bool
  | [], cs => cs.isEmpty
  | .any :: ps, cs => matchesAfter ps cs
  | .char c :: ps, d :: cs => c = d && matches? ps cs
  | .one :: ps, _ :: cs => matches? ps cs
  | .oneOf excluded ranges :: ps, d :: cs =>
    (ranges.any fun (a, b) => a ≤ d && d ≤ b) != excluded && matches? ps cs
  | _, [] => false
where
  matchesAfter (ps : List PatternItem) : List Char → Bool
    | [] => matches? ps []
    | c :: cs => matches? ps (c :: cs) || matchesAfter ps cs

def Word.matches (scope : Scope) (w : Word) (s : String) : Bool :=
  matches? (List.flatMap (Piece.pattern scope) w) s.toList

end Montage.Script
