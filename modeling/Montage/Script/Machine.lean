import Montage.Script.Expansion
import Montage.Script.Reading
import Montage.Script.Printing

/-!
Scripts run step by step.  A machine holds the commands it has still to run; each step yields the
files after it and what was written.  A machine that sleeps says for how long, and whoever runs it
decides when that time is over.
-/

namespace Montage.Script

inductive Sink
  | out
  | err
  | file (p : Place)
  | nowhere
  deriving DecidableEq

structure Channels where
  input : Bytes
  out : Sink
  err : Sink

inductive Task
  | run (c : Command)
  | each (name : String) (values : List String) (body : List Command)
  /-- The body of a choice, by the status of its test. -/
  | choose (body other : List Command)
  /-- The body of a loop, by the status of its test. -/
  | check (fails : Bool) (test body : List Command)
  | round (fails : Bool) (test body : List Command)
  | andThen (c : Command)
  | orElse (c : Command)
  | invert
  | restore (c : Channels)
  /-- The end of commands that run apart. -/
  | leave (bindings : List (String × String)) (place : Place) (c : Channels)

structure Machine where
  tasks : List Task
  scope : Scope
  place : Place
  channels : Channels

/-- A machine after a step, with the files and what the step wrote. -/
structure Turn where
  machine : Machine
  files : FileTree
  out : Bytes
  err : Bytes
  /-- The milliseconds the machine sleeps before it goes on. -/
  sleep : Option Nat

namespace Task

def runAll (cs : List Command) : List Task := cs.map .run

def isLoop : Task → Bool
  | .each .. => true
  | .check .. => true
  | .round .. => true
  | _ => false

/-- The tasks from a loop on, with the channels that are in force there.  So many loops inside of it
are skipped. -/
def toLoop (skipped : Nat) (c : Channels) : List Task → Channels × List Task
  | [] => (c, [])
  | .restore c :: rest => toLoop skipped c rest
  | t@(.leave ..) :: rest => (c, t :: rest)
  | t :: rest =>
    if t.isLoop then
      match skipped with
      | 0 => (c, t :: rest)
      | k + 1 => toLoop k c rest
    else toLoop skipped c rest

/-- The tasks from the nearest end of commands that run apart on. -/
def toLeave : List Task → List Task
  | t@(.leave ..) :: rest => t :: rest
  | _ :: rest => toLeave rest
  | [] => []

end Task

namespace Turn

def write (t : Turn) (bs : Bytes) : Sink → Turn
  | .out => { t with out := t.out ++ bs }
  | .err => { t with err := t.err ++ bs }
  | .file p => { t with files := t.files.append p bs }
  | .nowhere => t

def print (t : Turn) (bs : Bytes) : Turn := t.write bs t.machine.channels.out

def withStatus (t : Turn) (n : Nat) : Turn :=
  { t with machine := { t.machine with scope := { t.machine.scope with status := n } } }

def succeedIf (t : Turn) (b : Bool) : Turn := t.withStatus (if b then 0 else 1)

def status (t : Turn) : Nat := t.machine.scope.status

def withTasks (t : Turn) (tasks : List Task) : Turn :=
  { t with machine := { t.machine with tasks } }

/-- The tasks are done before all others. -/
def before (t : Turn) (tasks : List Task) : Turn := t.withTasks (tasks ++ t.machine.tasks)

def withChannels (t : Turn) (channels : Channels) : Turn :=
  { t with machine := { t.machine with channels } }

def withScope (t : Turn) (scope : Scope) : Turn := { t with machine := { t.machine with scope } }

/-- Ends the script, or the commands that run apart, with a status. -/
def quit (t : Turn) (n : Nat) : Turn :=
  (t.withTasks (Task.toLeave t.machine.tasks)).withStatus (n % 256)

/-- Does something to the files; if it fails, so does the command. -/
def change (t : Turn) : Except IoError FileTree → Turn
  | .ok files => { t with files }.withStatus 0
  | .error _ => t.withStatus 1

/-- Does something to the files for each argument. -/
def changeEach (t : Turn) (f : FileTree → String → Except IoError FileTree) : List String → Turn
  | [] => t
  | a :: rest => match f t.files a with
    | .ok files => { t with files }.changeEach f rest
    | .error _ => (t.changeEach f rest).withStatus 1

def entry? (t : Turn) (path : String) : Option Entry :=
  match t.files.locate t.machine.place path with
  | .ok p => t.files.entry? p
  | .error _ => none

end Turn

/-! ## Commands -/

def milliseconds (s : String) : Nat :=
  let (whole, rest) := s.toList.span Char.isDigit
  let places := ((rest.drop 1).takeWhile Char.isDigit ++ ['0', '0', '0']).take 3
  1000 * Decimal.ofDigitChars whole + Decimal.ofDigitChars places

/-- The answer to a question about texts, numbers or files. -/
def holds (t : Turn) : List String → Bool
  | "!" :: rest => !(holds t rest)
  | [] => false
  | [s] => !s.isEmpty
  | ["-n", s] => !s.isEmpty
  | ["-z", s] => s.isEmpty
  | ["-e", p] => (t.entry? p).isSome
  | ["-d", p] => t.entry? p == some .directory
  | ["-f", p] => match t.entry? p with
    | some (.file ..) => true
    | _ => false
  | ["-s", p] => match t.entry? p with
    | some (.file content _) => !content.isEmpty
    | some .directory => true
    | none => false
  | ["-x", p] => match t.entry? p with
    | some (.file _ executable) => executable
    | some .directory => true
    | none => false
  | [a, "=", b] => a == b
  | [a, "!=", b] => a != b
  | [a, "-eq", b] => number a == number b
  | [a, "-ne", b] => number a != number b
  | [a, "-lt", b] => number a < number b
  | [a, "-le", b] => number a ≤ number b
  | [a, "-gt", b] => number a > number b
  | [a, "-ge", b] => number a ≥ number b
  | _ => false

/-- Where a copy or a moved file goes: into a directory, else to the path itself. -/
def destination (t : Turn) (source target : String) : String :=
  if t.entry? target == some .directory then
    Path.join target ((Path.names source).getLast?.getD "")
  else target

def copyFile (t : Turn) (source target : String) : Except IoError FileTree := do
  t.files.write t.machine.place (destination t source target)
    (← t.files.read t.machine.place source)

def splitOptions (args : List String) : List String × List String :=
  args.span fun a => a.length > 1 && a.startsWith "-"

/-- A command that needs nothing but its arguments.  A name that is unknown is not found. -/
def invoke (t : Turn) (name : String) (args : List String) : Turn :=
  let place := t.machine.place
  let scope := t.machine.scope
  let (options, operands) := splitOptions args
  let count := match args with
    | [] => 1
    | n :: _ => (number n).toNat
  match name with
  | ":" | "true" | "export" | "unset" | "trap" | "umask" | "chmod" => t.withStatus 0
  | "false" => t.withStatus 1
  | "echo" => (t.print (echo args)).withStatus 0
  | "printf" => match args with
    | [] => t.withStatus 2
    | format :: rest => (t.print (printf format rest)).withStatus 0
  | "exit" => t.quit (match args with
    | [] => t.status
    | n :: _ => if isNumber n then (number n).toNat else 2)
  | "sleep" => { t.withStatus 0 with sleep := some (args.foldl (fun n a => n + milliseconds a) 0) }
  | "pwd" => (t.print (Bytes.ofString ("/" ++ String.intercalate "/" place ++ "\n"))).withStatus 0
  | "cd" => match t.files.locate place (args.headD "") with
    | .ok p =>
      if t.files.isDirectory p then
        { t with machine := { t.machine with place := p } }.withStatus 0
      else t.withStatus 2
    | .error _ => t.withStatus 2
  | "cat" =>
    if args.isEmpty then (t.print t.machine.channels.input).withStatus 0
    else args.foldl (fun t a => match t.files.read place a with
      | .ok bs => t.print bs
      | .error _ => t.withStatus 1) (t.withStatus 0)
  | "mkdir" =>
    (t.withStatus 0).changeEach
      (fun files p => if options.isEmpty then files.makeDirectory place p
        else files.makeDirectories place p) operands
  | "touch" =>
    (t.withStatus 0).changeEach
      (fun files p => (files.openFile place p true).map (·.1)) operands
  | "rm" =>
    let has (c : Char) : Bool := options.any fun o => o.toList.contains c
    let t := (t.withStatus 0).changeEach
      (fun files p =>
        if has 'r' && (t.entry? p == some .directory) then files.removeTree place p
        else files.removeFile place p) operands
    if has 'f' then t.withStatus 0 else t
  | "cp" => match operands with
    | [a, b] => t.change (copyFile t a b)
    | _ => t.withStatus 1
  | "mv" => match operands with
    | [a, b] => t.change (do
      let files ← copyFile t a b
      files.removeFile place a)
    | _ => t.withStatus 1
  | "test" => t.succeedIf (holds t args)
  | "[" => t.succeedIf (holds t args.dropLast)
  | "shift" => (t.withScope { scope with args := scope.args.drop count }).withStatus 0
  | "set" => match args with
    | "--" :: rest => (t.withScope { scope with args := rest }).withStatus 0
    | _ => t.withStatus 0
  | "break" =>
    let (channels, tasks) := Task.toLoop (count - 1) t.machine.channels t.machine.tasks
    ((t.withChannels channels).withTasks (if (tasks.head?.map Task.isLoop).getD false
      then tasks.tail else tasks)).withStatus 0
  | "continue" =>
    let (channels, tasks) := Task.toLoop (count - 1) t.machine.channels t.machine.tasks
    ((t.withChannels channels).withTasks tasks).withStatus 0
  | _ => t.withStatus 127

/-- Commands whose redirections have to succeed for the script to go on. -/
def isSpecial (c : Command) : Bool :=
  match c with
  | .simple _ ([.text s false] :: _) =>
    [":", "exit", "exec", "set", "export", "shift", "trap", "unset", "break", "continue"].contains
      (String.ofList s)
  | _ => false

def isBareExec : Command → Bool
  | .simple _ [[.text s false]] => String.ofList s == "exec"
  | _ => false

/-- Carries out redirections one by one, up to the first that fails. -/
def redirect (t : Turn) : List Redirect → Except IoError Turn
  | [] => .ok t
  | r :: rest => do
    let place := t.machine.place
    let target := r.target.join t.machine.scope
    let channels := t.machine.channels
    let (files, sink) ← (match r.kind with
      | .copy => pure (t.files, if target = "1" then channels.out
          else if target = "2" then channels.err else .nowhere)
      | .read => pure (t.files, Sink.nowhere)
      | .write | .append =>
        if target = "/dev/null" then pure (t.files, Sink.nowhere)
        else do
          let keep := match r.kind with
            | .append => true
            | _ => false
          let (files, p) ← t.files.openFile place target keep
          pure (files, Sink.file p))
    let channels ← (match r.kind, r.descriptor with
      | .read, _ =>
        if target = "/dev/null" then pure { channels with input := [] }
        else do
          let bs ← t.files.read place target
          pure { channels with input := bs }
      | _, 1 => pure { channels with out := sink }
      | _, 2 => pure { channels with err := sink }
      | _, _ => pure channels : Except IoError Channels)
    redirect ({ t with files }.withChannels channels) rest

def begin (t : Turn) : Command → Turn
  | .simple assignments words =>
    let scope := t.machine.scope
    match words.flatMap (Word.fields scope) with
    | [] =>
      (t.withScope (assignments.foldl (fun s (n, w) => s.set n (w.join s)) scope)).withStatus 0
    | ["exec"] => t.withStatus 0
    | "exec" :: name :: args =>
      invoke (t.withTasks (Task.toLeave t.machine.tasks)) name args
    | name :: args => invoke t name args
  | .each name values body =>
    let scope := t.machine.scope
    let values := match values with
      | none => scope.args
      | some ws => ws.flatMap (Word.fields scope)
    (t.withStatus 0).before [.each name values body]
  | .whether test body other => t.before (Task.runAll test ++ [.choose body other])
  | .loop fails test body => t.before [.round fails test body]
  | .select subject arms =>
    let scope := t.machine.scope
    let subject := subject.join scope
    match arms.find? fun (patterns, _) => patterns.any (Word.matches scope · subject) with
    | some (_, body) => (t.withStatus 0).before (Task.runAll body)
    | none => t.withStatus 0
  | .group body => t.before (Task.runAll body)
  | .nested body =>
    t.before (Task.runAll body
      ++ [.leave t.machine.scope.bindings t.machine.place t.machine.channels])
  | .both a b => t.before [.run a, .andThen b]
  | .either a b => t.before [.run a, .orElse b]
  | .negate a => t.before [.run a, .invert]
  | .redirected a rs =>
    match redirect t rs with
    | .ok next =>
      if isBareExec a then next.withStatus 0
      else next.before [.run a, .restore t.machine.channels]
    | .error _ => if isSpecial a then t.quit 2 else t.withStatus 2

/-- Takes up a task that was put before others. -/
def Task.resume (t : Turn) : Task → Turn
  | .run c => begin t c
  | .each _ [] _ => t
  | .each name (v :: rest) body =>
    (t.withScope (t.machine.scope.set name v)).before (Task.runAll body ++ [.each name rest body])
  | .choose body other =>
    if t.status = 0 then t.before (Task.runAll body)
    else (t.withStatus 0).before (Task.runAll other)
  | .check fails test body =>
    if (t.status = 0) != fails then t.before (Task.runAll body ++ [.round fails test body])
    else t.withStatus 0
  | .round fails test body => t.before (Task.runAll test ++ [.check fails test body])
  | .andThen c => if t.status = 0 then t.before [.run c] else t
  | .orElse c => if t.status = 0 then t else t.before [.run c]
  | .invert => t.succeedIf (t.status != 0)
  | .restore c => t.withChannels c
  | .leave bindings place channels =>
    { t with machine := { t.machine with
        scope := { t.machine.scope with bindings }, place, channels } }

namespace Machine

def start (commands : List Command) (name : String) (args : List String) (place : Place) :
    Machine where
  tasks := Task.runAll commands
  scope := ⟨name, args, [], 0⟩
  place
  channels := ⟨[], .out, .err⟩

/-- A machine that is at its end. -/
def finished (status : Nat) : Machine where
  tasks := []
  scope := ⟨"", [], [], status⟩
  place := []
  channels := ⟨[], .out, .err⟩

/-- The machine for the text of a script.  What cannot be read ends at once. -/
def ofScript (text : String) (name : String) (args : List String) (place : Place) : Machine :=
  match read? text with
  | some commands => start commands name args place
  | none => finished 2

/-- The status that the machine ends with, if it is at its end. -/
def ended? (m : Machine) : Option UInt8 :=
  if m.tasks.isEmpty then some (UInt8.ofNat m.scope.status) else none

/-- The next step; `none` at the end. -/
def step (m : Machine) (files : FileTree) : Option Turn :=
  match m.tasks with
  | [] => none
  | task :: rest => some (task.resume ⟨{ m with tasks := rest }, files, [], [], none⟩)

end Machine

end Montage.Script
