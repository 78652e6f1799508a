import Montage.Decimal.Reading
import Montage.Json.Tree

/-!
From text to tree.  Blanks are the space, the tab, the line feed and the carriage return.  The
reader never looks back; its budget is the length of the text, which no text can use up.
-/

namespace Montage.Json

def isSpace (c : Char) : Bool := c = ' ' || c = '\t' || c = '\n' || c = '\r'

def skipSpace (cs : List Char) : List Char := cs.dropWhile isSpace

/-- What a value left of the text, or the fault that ended reading. -/
abbrev Rest := Except Breaks (List Char)

/-- The text after a given word. -/
def expect : List Char → List Char → Except Break (List Char)
  | [], rest => .ok rest
  | _ :: _, [] => .error .early
  | w :: ws, c :: cs => if c = w then expect ws cs else .error .malformed

def hexValue? (c : Char) : Option Nat :=
  if '0' ≤ c ∧ c ≤ '9' then some (c.toNat - 48)
  else if 'a' ≤ c ∧ c ≤ 'f' then some (c.toNat - 87)
  else if 'A' ≤ c ∧ c ≤ 'F' then some (c.toNat - 55)
  else none

def hexValue4? (a b c d : Char) : Option Nat := do
  let a ← hexValue? a
  let b ← hexValue? b
  let c ← hexValue? c
  let d ← hexValue? d
  return ((a * 16 + b) * 16 + c) * 16 + d

/-- The characters after a backslash that stand for one character. -/
def unescape? (c : Char) : Option Char :=
  match c with
  | '"' => some '"'
  | '\\' => some '\\'
  | '/' => some '/'
  | 'b' => some (Char.ofNat 8)
  | 'f' => some (Char.ofNat 12)
  | 'n' => some '\n'
  | 'r' => some '\r'
  | 't' => some '\t'
  | _ => none

/-- Fewer than four characters follow the mark of a numbered character.  Four bytes are enough to
see that they are no number. -/
def shortEscape (cs : List Char) : Break :=
  if 4 ≤ (String.ofList cs).utf8ByteSize then .malformed else .early

def isLeading (n : Nat) : Bool := 0xD800 ≤ n && n ≤ 0xDBFF

def isTrailing (n : Nat) : Bool := 0xDC00 ≤ n && n ≤ 0xDFFF

/-- A quoted text so far: the characters read, last first, and the leading half of a pair when one
waits for its other half; or the fault that leaves the text without a content. -/
abbrev Content := Except Break (List Char × Option Nat)

namespace Content

def push (c : Char) : Content → Content
  | .ok (cs, none) => .ok (c :: cs, none)
  | .ok (_, some _) => .error .malformed
  | .error b => .error b

def pushUnit (n : Nat) : Content → Content
  | .ok (cs, none) =>
    if isLeading n then .ok (cs, some n)
    else if isTrailing n then .error .malformed
    else .ok (Char.ofNat n :: cs, none)
  | .ok (cs, some high) =>
    if isTrailing n then
      .ok (Char.ofNat (0x10000 + (high - 0xD800) * 0x400 + (n - 0xDC00)) :: cs, none)
    else .error .malformed
  | .error b => .error b

def close : Content → Except Break String
  | .ok (cs, none) => .ok (String.ofList cs.reverse)
  | .ok (_, some _) => .error .malformed
  | .error b => .error b

/-- The fault met first when the text then goes wrong with `b`. -/
def fail (b : Break) : Content → Break
  | .ok _ => b
  | .error first => first

end Content

/-- The rest of a quoted text after the opening quote. -/
def scanString (content : Content) : List Char → Quote × Rest
  | [] => stop content .early
  | '"' :: rest => (⟨content.close, none⟩, .ok rest)
  | '\\' :: [] => stop content .early
  | '\\' :: 'u' :: a :: b :: c :: d :: rest =>
    match hexValue4? a b c d with
    | some n => scanString (content.pushUnit n) rest
    | none => stop content .malformed
  | '\\' :: 'u' :: rest => stop content (shortEscape rest)
  | '\\' :: e :: rest =>
    match unescape? e with
    | some c => scanString (content.push c) rest
    | none => stop content .malformed
  | c :: rest =>
    if c.toNat < 32 then stop content .malformed
    else scanString (content.push c) rest
where
  stop (content : Content) (b : Break) : Quote × Rest :=
    (⟨.error (content.fail b), some b⟩, .error ⟨content.fail b, b⟩)

def scanPower (cs : List Char) : Except Breaks (Int × List Char) :=
  let (negative, cs) := match cs with
    | '+' :: rest => (false, rest)
    | '-' :: rest => (true, rest)
    | _ => (false, cs)
  match Decimal.spanDigits cs with
  | ([], []) => .error ⟨.early, .malformed⟩
  | ([], _) => .error (.both .malformed)
  | (ds, rest) =>
    let n : Int := Decimal.ofDigitChars ds
    .ok (if negative then -n else n, rest)

/-- The digits before the point: a lone zero, or digits that start with another. -/
def scanWhole : List Char → Except Breaks (List Char × List Char)
  | [] => .error ⟨.early, .malformed⟩
  | '0' :: c :: rest => if c.isDigit then .error (.both .malformed) else .ok (['0'], c :: rest)
  | cs => match Decimal.spanDigits cs with
    | ([], _) => .error (.both .malformed)
    | (ds, rest) => .ok (ds, rest)

def scanFraction : List Char → Except Breaks (Option (List Char) × List Char)
  | '.' :: cs => match Decimal.spanDigits cs with
    | ([], []) => .error ⟨.early, .malformed⟩
    | ([], _) => .error (.both .malformed)
    | (ds, rest) => .ok (some ds, rest)
  | cs => .ok (none, cs)

def scanNumber (cs : List Char) : Except Breaks (Decimal.Written × List Char) := do
  let (whole, cs) ← scanWhole cs
  let (fraction, cs) ← scanFraction cs
  let places := (fraction.getD []).length
  let mantissa := Decimal.ofDigitChars (whole ++ fraction.getD [])
  match cs with
  | c :: rest =>
    if c = 'e' || c = 'E' then
      let (power, rest) ← scanPower rest
      return (⟨mantissa, power - places, false⟩, rest)
    else return (⟨mantissa, -(places : Int), fraction.isNone⟩, cs)
  | [] => return (⟨mantissa, -(places : Int), fraction.isNone⟩, [])

/-- The number that a written one stands for.  Whole numbers outside the double words, and minus
zero, are doubles; there is no number beyond the doubles. -/
def Number.ofWritten (negative : Bool) (w : Decimal.Written) : Except Break Number :=
  if w.whole && !negative && w.mantissa < UInt64.size then .ok (.whole w.mantissa)
  else if w.whole && negative && w.mantissa ≠ 0 && w.mantissa ≤ UInt64.size / 2 then
    .ok (.whole (-(w.mantissa : Int)))
  else
    let x := Decimal.nearest negative w.mantissa w.exponent
    if x.isInf then .error .malformed else .ok (.real x)

def numberTree (negative : Bool) (cs : List Char) : Tree × Rest :=
  match scanNumber cs with
  | .ok (w, rest) => (.number (Number.ofWritten negative w), .ok rest)
  | .error b => (.broken b, .error b)

def wordTree (t : Tree) (word cs : List Char) : Tree × Rest :=
  match expect word cs with
  | .ok rest => (t, .ok rest)
  | .error b => (.broken (.both b), .error (.both b))

mutual

/-- The value at the start of a text. -/
def parseTree : Nat → List Char → Tree × Rest
  | 0, _ => (.absent, .error (.both .early))
  | fuel + 1, cs =>
    match skipSpace cs with
    | [] => (.absent, .error (.both .early))
    | 'n' :: rest => wordTree .null "ull".toList rest
    | 't' :: rest => wordTree (.bool true) "rue".toList rest
    | 'f' :: rest => wordTree (.bool false) "alse".toList rest
    | '-' :: rest => numberTree true rest
    | '"' :: rest =>
      let (q, r) := scanString (.ok ([], none)) rest
      (.string q, r)
    | '[' :: rest =>
      let (items, r) := parseItems fuel true rest
      (.array items, r)
    | '\x7b' :: rest =>
      let (members, r) := parseMembers fuel true rest
      (.object members, r)
    | c :: rest =>
      if c.isDigit then numberTree false (c :: rest)
      else (.broken (.both .malformed), .error (.both .malformed))

/-- The rest of an array; `first` as long as it has no item. -/
def parseItems : Nat → Bool → List Char → Items × Rest
  | 0, _, _ => (.cut .early, .error (.both .early))
  | fuel + 1, first, cs =>
    match skipSpace cs with
    | [] => (.cut .early, .error (.both .early))
    | ']' :: rest => (.closed, .ok rest)
    | ',' :: rest =>
      if first then (.cut .malformed, .error (.both .malformed))
      else match skipSpace rest with
        | ']' :: _ => (.cons (.broken (.both .malformed)) .closed, .error (.both .malformed))
        | rest => parseItem fuel rest
    | c :: rest =>
      if first then parseItem fuel (c :: rest)
      else (.cut .malformed, .error (.both .malformed))

def parseItem : Nat → List Char → Items × Rest
  | 0, _ => (.cut .early, .error (.both .early))
  | fuel + 1, cs =>
    match parseTree fuel cs with
    | (t, .error b) => (.cons t .closed, .error b)
    | (t, .ok rest) =>
      let (items, r) := parseItems fuel false rest
      (.cons t items, r)

/-- The rest of an object; `first` as long as it has no member. -/
def parseMembers : Nat → Bool → List Char → Members × Rest
  | 0, _, _ => (.cut .early, .error (.both .early))
  | fuel + 1, first, cs =>
    match skipSpace cs with
    | [] => (.cut .early, .error (.both .early))
    | '\x7d' :: rest => (.closed, .ok rest)
    | '"' :: rest =>
      if first then parseMember fuel rest
      else (.cut .malformed, .error (.both .malformed))
    | ',' :: rest =>
      if first then (.unquoted (.broken (.both .malformed)), .error (.both .malformed))
      else match skipSpace rest with
        | '"' :: rest => parseMember fuel rest
        | [] => noKey .early
        | _ => noKey .malformed
    | c :: rest =>
      if first then (.unquoted (parseTree fuel (c :: rest)).1, .error (.both .malformed))
      else (.cut .malformed, .error (.both .malformed))

def parseMember : Nat → List Char → Members × Rest
  | 0, _ => (.cut .early, .error (.both .early))
  | fuel + 1, cs =>
    match scanString (.ok ([], none)) cs with
    | (key, .error b) => (.cons key .absent .closed, .error b)
    | (key, .ok rest) =>
      match skipSpace rest with
      | ':' :: rest =>
        match parseTree fuel rest with
        | (t, .error b) => (.cons key t .closed, .error b)
        | (t, .ok rest) =>
          let (members, r) := parseMembers fuel false rest
          (.cons key t members, r)
      | [] => (.cons key .absent .closed, .error (.both .early))
      | _ => (.cons key (.broken (.both .malformed)) .closed, .error (.both .malformed))

def noKey (b : Break) : Members × Rest :=
  (.cons ⟨.error b, some b⟩ .absent .closed, .error (.both b))

end

/-- The document that a text holds. -/
def Document.ofChars (cs : List Char) : Document :=
  match parseTree (4 * cs.length + 4) cs with
  | (t, .ok rest) => ⟨t, !(skipSpace rest).isEmpty⟩
  | (t, .error _) => ⟨t, false⟩

def Document.ofString (s : String) : Document := Document.ofChars s.toList

end Montage.Json
