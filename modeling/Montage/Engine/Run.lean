import Montage.Command.Basic
import Montage.Engine.Outcome
import Montage.Progress

/-!
One run of a command: a process and the watcher that follows it.  The watcher reads the progress
of the process line by line and tells the caller when a block closes.  Once it has seen the process
end it stops reading; it tells how the process ended in a step of its own, and then nothing more.
-/

namespace Montage

inductive Slot
  | encode
  | thumbnails
  deriving DecidableEq, Repr

inductive Life
  | alive
  | exited (code : UInt8)
  | killed
  deriving DecidableEq, Repr

/-- A process that has exited cannot be killed any more. -/
def Life.kill : Life → Life
  | .alive => .killed
  | life => life

inductive Notice
  | report (r : Report)
  /-- The process is gone, and these stills were found. -/
  | ended (o : Outcome) (stills : List String)
  deriving DecidableEq, Repr

def Notice.report? : Notice → Option Report
  | .report r => some r
  | .ended .. => none

def Notice.ended? : Notice → Option (Outcome × List String)
  | .report _ => none
  | .ended o stills => some (o, stills)

structure Run where
  slot : Slot
  command : Command
  life : Life
  /-- What the process has written and the watcher has not read. -/
  unread : Bytes
  /-- Whether the watcher still reads. -/
  reading : Bool
  progress : Progress
  /-- Whether the watcher has been asked to kill the process. -/
  doomed : Bool
  /-- How the process ended, once the watcher has seen it. -/
  verdict : Option Outcome
  /-- What the caller has been told, first to last. -/
  notices : List Notice
  deriving DecidableEq, Repr

namespace Run

def start (slot : Slot) (command : Command) : Run where
  slot
  command
  life := .alive
  unread := []
  reading := true
  progress := .start
  doomed := false
  verdict := none
  notices := []

def reports (r : Run) : List Report := r.notices.filterMap Notice.report?

def ending? (r : Run) : Option (Outcome × List String) := r.notices.findSome? Notice.ended?

def outcome? (r : Run) : Option Outcome := r.ending?.map (·.1)

def isOver (r : Run) : Bool := r.ending?.isSome

def isAlive (r : Run) : Bool := r.life == .alive

/-- Asks the watcher to kill the process. -/
def doom (r : Run) : Run := { r with doomed := true }

def tell (r : Run) (n : Notice) : Run := { r with notices := r.notices ++ [n] }

def take (r : Run) (line : Bytes) : Run :=
  match line.text? with
  | none => { r with reading := false }
  | some s =>
    let (progress, closes) := r.progress.feed s.toList
    let r := { r with progress }
    if closes then r.tell (.report (progress.report r.command.duration)) else r

/-- The bytes before and after the first line feed. -/
def splitLine? : Bytes → Option (Bytes × Bytes)
  | [] => none
  | b :: rest =>
    if b = 10 then some ([], rest) else (splitLine? rest).map fun (line, rest) => (b :: line, rest)

/-- Reads the next line.  The last line need not have an end, but only the end of the process
shows that it is the last. -/
def readLine (r : Run) : Option Run :=
  match splitLine? r.unread with
  | some (line, rest) => some ({ r with unread := rest }.take line)
  | none =>
    if r.isAlive then none
    else if r.unread.isEmpty then some { r with reading := false }
    else some ({ r with unread := [] }.take r.unread)

/-- A step of the watcher while it follows the process.  To kill goes before all else, and to read
goes before the end. -/
def follow (r : Run) : Option Run :=
  if r.doomed then some { r with life := r.life.kill, verdict := some .killed }
  else if r.reading then r.readLine
  else match r.life with
    | .exited code => some { r with verdict := some (.finished code) }
    | _ => none

/-- One step of the watcher, with the stills that it would find now; `none` if it has to wait. -/
def watch (stills : List String) (r : Run) : Option Run :=
  if r.isOver then none
  else match r.verdict with
    | some outcome => some (r.tell (.ended outcome stills))
    | none => r.follow

end Run

end Montage
