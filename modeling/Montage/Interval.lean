/-!
Times in seconds.  An interval holds its start and not its end; its ends may be any doubles, so
most questions about it have an answer for ends that are no numbers too.
-/

namespace Montage

namespace Seconds

/-- The larger of two times; of a number and no number, the number.  Equal ones give the first. -/
def larger (a b : Float) : Float :=
  if a.isNaN then b else if a < b then b else a

/-- The smaller of two times; of a number and no number, the number.  Equal ones give the first. -/
def smaller (a b : Float) : Float :=
  if a.isNaN then b else if b < a then b else a

def clamp (low high x : Float) : Float :=
  if x < low then low else if high < x then high else x

end Seconds

structure Interval where
  start : Float
  stop : Float
  deriving DecidableEq, Repr

namespace Interval

/-- The length, zero for an interval that runs backwards. -/
def duration (i : Interval) : Float := Seconds.larger (i.stop - i.start) 0

def contains (i : Interval) (t : Float) : Bool := i.start ≤ t && t < i.stop

/-- Finite ends, in order, from zero on. -/
def isValid (i : Interval) : Bool :=
  i.start.isFinite && i.stop.isFinite && (0 : Float) ≤ i.start && i.start ≤ i.stop

end Interval

end Montage
