import Montage.Decimal.Reading
import Montage.Interval
import Montage.Text.Blank

/-!
The progress that a running processor reports, line by line.  A line sets one value; the line with
the key `progress` closes a block.  The rendered time and the frame count never go back.
-/

namespace Montage

structure Progress where
  seconds : Float
  frames : Nat
  complete : Bool
  deriving DecidableEq, Repr

/-- What callers are told when a block closes. -/
structure Report where
  seconds : Float
  frames : Nat
  fraction : Float
  complete : Bool
  deriving DecidableEq, Repr

namespace Progress

def start : Progress := ⟨0, 0, false⟩

/-- The rendered time in microseconds; what is no finite number changes nothing. -/
def setTime (p : Progress) (value : List Char) : Progress :=
  match Decimal.readFloat? value with
  | some us => if us.isFinite then { p with seconds := Seconds.larger p.seconds (us / 1000000) } else p
  | none => p

def setFrames (p : Progress) (value : List Char) : Progress :=
  match Decimal.readWhole? UInt64.size value with
  | some n => { p with frames := max p.frames n }
  | none => p

/-- Sets one value.  Both keys of the time count microseconds, whatever their names say. -/
def update (p : Progress) (key value : List Char) : Progress :=
  if key = "out_time_us".toList ∨ key = "out_time_ms".toList then p.setTime value
  else if key = "frame".toList then p.setFrames value
  else if key = "progress".toList then { p with complete := decide (value = "end".toList) }
  else p

/-- The key and the value around the first equals sign of a line, without blanks. -/
def entry? (line : List Char) : Option (List Char × List Char) :=
  (Text.splitAtFirst? '=' (Text.trim line)).map fun (k, v) => (Text.trim k, Text.trim v)

/-- Takes in a line, and says whether it closes a block. -/
def feed (p : Progress) (line : List Char) : Progress × Bool :=
  match entry? line with
  | none => (p, false)
  | some (key, value) => (p.update key value, decide (key = "progress".toList))

def report (p : Progress) (duration : Float) : Report where
  seconds := p.seconds
  frames := p.frames
  fraction :=
    if p.complete then 1
    else if (0 : Float) < duration then Seconds.clamp 0 1 (p.seconds / duration)
    else 0
  complete := p.complete

end Progress

end Montage
