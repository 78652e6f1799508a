import Montage.Decimal.Reading
import Montage.Text.Blank
import Montage.Text.Quoted

/-!
What a request may name in words: the kind of output and the display aspect ratio.
-/

namespace Montage

/-- What the processor is asked for: numbered stills, a live stream, or a finished file. -/
inductive OutputMode
  | thumbnail
  | preview
  | render
  deriving DecidableEq, Repr

/-- A word that names no output mode, or text that is no aspect ratio. -/
inductive FieldError
  | outputMode (given : String)
  | aspectRatio (given : String)
  deriving DecidableEq, Repr

def FieldError.message : FieldError → String
  | .outputMode s =>
    "unknown output mode " ++ Text.quoted s ++ " (expected thumbnail, preview, or render)"
  | .aspectRatio s =>
    "invalid aspect ratio " ++ Text.quoted s ++ " (expected A:B with non-zero integers)"

namespace OutputMode

def all : List OutputMode := [.thumbnail, .preview, .render]

def name : OutputMode → String
  | .thumbnail => "thumbnail"
  | .preview => "preview"
  | .render => "render"

def named? (s : String) : Option OutputMode := all.find? (·.name == s)

/-- The mode meant by a word, in any letter case and with blanks around it; stills may be named in
the plural. -/
def parse (s : String) : Except FieldError OutputMode :=
  let word := String.ofList (Text.lower (Text.trim s.toList))
  if word = "thumbnails" then .ok .thumbnail
  else match named? word with
    | some m => .ok m
    | none => .error (.outputMode s)

end OutputMode

structure AspectRatio where
  num : UInt32
  den : UInt32
  deriving DecidableEq, Repr

namespace AspectRatio

def widescreen : AspectRatio := ⟨16, 9⟩

def text (r : AspectRatio) : String := toString r.num.toNat ++ ":" ++ toString r.den.toNat

/-- Two positive whole numbers around the first colon, with blanks around either. -/
def parse (s : String) : Except FieldError AspectRatio :=
  let part (cs : List Char) : Option Nat := do
    let n ← Decimal.readWhole? UInt32.size (Text.trim cs)
    if n = 0 then none else some n
  let ratio : Option AspectRatio := do
    let (a, b) ← Text.splitAtFirst? ':' s.toList
    return ⟨UInt32.ofNat (← part a), UInt32.ofNat (← part b)⟩
  match ratio with
  | some r => .ok r
  | none => .error (.aspectRatio s)

end AspectRatio

end Montage
