import Montage.Decimal.Reading
import Montage.FileTree

/-!
The texts that the printing commands write: escapes in a text, and formats with their arguments.
An escape of octal digits stands for one byte, so the result is a row of bytes.
-/

namespace Montage.Script

def charBytes (c : Char) : Bytes := Bytes.ofString (String.singleton c)

def isOctal (c : Char) : Bool := '0' ≤ c && c ≤ '7'

/-- The byte of at most `n` octal digits, with what follows them. -/
def octalByte (n : Nat) (cs : List Char) : UInt8 × List Char :=
  let digits := (cs.take n).takeWhile isOctal
  (UInt8.ofNat (digits.foldl (fun k c => 8 * k + Decimal.digitValue c) 0), cs.drop digits.length)

/-- The byte that a letter after a backslash stands for. -/
def escapeByte? : Char → Option UInt8
  | 'a' => some 7
  | 'b' => some 8
  | 't' => some 9
  | 'n' => some 10
  | 'v' => some 11
  | 'f' => some 12
  | 'r' => some 13
  | '\\' => some 92
  | _ => none

/-- A text with its escapes carried out, and whether one of them says that all output ends here. -/
def unescape : Nat → List Char → Bytes × Bool
  | 0, _ => ([], false)
  | _, [] => ([], false)
  | _ + 1, '\\' :: 'c' :: _ => ([], true)
  | fuel + 1, '\\' :: '0' :: rest =>
    let (b, rest) := octalByte 3 rest
    let (bs, stop) := unescape fuel rest
    (b :: bs, stop)
  | fuel + 1, '\\' :: c :: rest =>
    if isOctal c then
      let (b, rest) := octalByte 3 (c :: rest)
      let (bs, stop) := unescape fuel rest
      (b :: bs, stop)
    else
      let (bs, stop) := unescape fuel rest
      match escapeByte? c with
      | some b => (b :: bs, stop)
      | none => (charBytes '\\' ++ charBytes c ++ bs, stop)
  | fuel + 1, c :: rest =>
    let (bs, stop) := unescape fuel rest
    (charBytes c ++ bs, stop)

def unescaped (s : String) : Bytes × Bool := unescape (s.length + 1) s.toList

def echo (args : List String) : Bytes :=
  let (line, args) := match args with
    | "-n" :: rest => (false, rest)
    | _ => (true, args)
  match unescaped (String.intercalate " " args) with
  | (bs, true) => bs
  | (bs, false) => bs ++ if line then [10] else []

/-- What stands between the mark of a field in a format and its letter. -/
structure FieldWidth where
  left : Bool
  zeros : Bool
  width : Nat
  /-- The most characters that are taken of a text. -/
  limit : Option Nat

def readWidth (cs : List Char) : FieldWidth × List Char :=
  let (flags, rest) := cs.span "-0+ #".toList.contains
  let (width, rest) := rest.span Char.isDigit
  let (limit, rest) := match rest with
    | '.' :: more =>
      let (ds, rest) := more.span Char.isDigit
      (some (Decimal.ofDigitChars ds), rest)
    | _ => (none, rest)
  (⟨flags.contains '-', flags.contains '0', Decimal.ofDigitChars width, limit⟩, rest)

def FieldWidth.pad (f : FieldWidth) (numeric : Bool) (bs : Bytes) : Bytes :=
  let missing := f.width - bs.length
  if f.left then bs ++ List.replicate missing 32
  else if f.zeros && numeric then
    match bs with
    | 45 :: rest => 45 :: List.replicate missing 48 ++ rest
    | _ => List.replicate missing 48 ++ bs
  else List.replicate missing 32 ++ bs

def isNumber (s : String) : Bool := !s.isEmpty && s.toList.all Char.isDigit

def number (s : String) : Int :=
  match s.toList with
  | '-' :: ds => -(((Decimal.readWhole? (UInt64.size / 2) ds).getD 0 : Nat) : Int)
  | ds => ((Decimal.readWhole? (UInt64.size / 2) ds).getD 0 : Nat)

def FieldWidth.write (f : FieldWidth) (letter : Char) (arg : String) : Bytes :=
  let cut (bs : Bytes) : Bytes := match f.limit with
    | some n => bs.take n
    | none => bs
  match letter with
  | 's' => f.pad false (cut (Bytes.ofString arg))
  | 'b' => f.pad false (cut (unescaped arg).1)
  | 'c' => f.pad false (Bytes.ofString (String.ofList (arg.toList.take 1)))
  | _ => f.pad true (Bytes.ofString (toString (number arg)))

/-- One pass over a format, with the arguments that are left after it. -/
def formatOnce : Nat → List Char → List String → Bytes × List String
  | 0, _, args => ([], args)
  | _, [], args => ([], args)
  | fuel + 1, '%' :: '%' :: rest, args =>
    let (bs, args) := formatOnce fuel rest args
    (37 :: bs, args)
  | fuel + 1, '%' :: rest, args =>
    let (width, rest) := readWidth rest
    match rest with
    | [] => ([], args)
    | letter :: rest =>
      let (bs, more) := formatOnce fuel rest args.tail
      (width.write letter (args.headD "") ++ bs, more)
  | fuel + 1, '\\' :: c :: rest, args =>
    if isOctal c then
      let (b, rest) := octalByte 3 (c :: rest)
      let (bs, args) := formatOnce fuel rest args
      (b :: bs, args)
    else
      let (bs, args) := formatOnce fuel rest args
      match escapeByte? c with
      | some b => (b :: bs, args)
      | none => (charBytes '\\' ++ charBytes c ++ bs, args)
  | fuel + 1, c :: rest, args =>
    let (bs, args) := formatOnce fuel rest args
    (charBytes c ++ bs, args)

/-- The format filled in, again and again as long as it takes up arguments. -/
def formatAll (format : String) : Nat → List String → Bytes
  | 0, _ => []
  | fuel + 1, args =>
    let (bs, more) := formatOnce (format.length + 1) format.toList args
    if more.isEmpty || more.length = args.length then bs else bs ++ formatAll format fuel more

def printf (format : String) (args : List String) : Bytes := formatAll format (args.length + 1) args

end Montage.Script
