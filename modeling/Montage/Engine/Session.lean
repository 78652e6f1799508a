import Montage.Engine.State
import Montage.Script.Machine

/-!
An engine with scripts as its processes.  A session takes the steps in one fixed order: calls go
before watchers, watchers before scripts, and when all that is left is to sleep, the first
sleeper wakes.  Every step of its engine is one of `Engine.step`.
-/

namespace Montage

structure ScriptProcess where
  run : Nat
  machine : Script.Machine
  /-- When it wakes, in milliseconds. -/
  wakes : Option Nat

structure Session where
  engine : Engine
  state : EngineState
  processes : List ScriptProcess
  now : Nat
  errors : Bytes

namespace Session

def start (engine : Engine) (files : FileTree) : Session where
  engine
  state := .start files
  processes := []
  now := 0
  errors := []

def act? (s : Session) (a : Action) : Option Session :=
  (s.engine.step s.state a).map fun state => { s with state }

def act (s : Session) (a : Action) : Session := (s.act? a).getD s

/-- The machine for a process that starts now. -/
def machineFor (s : Session) (c : Command) : Script.Machine :=
  let files := s.state.files
  let loaded : Except IoError Script.Machine := do
    let dir ← files.locate s.engine.place s.engine.config.scratch
    let text ← files.readText dir s.engine.binary
    return .ofScript text s.engine.binary c.args dir
  match loaded with
  | .ok m => m
  | .error _ => .finished 2

/-- Takes up the scripts of runs that are new. -/
def load (s : Session) (known : Nat) : Session :=
  let fresh := (s.state.runs.drop known).zipIdx.map fun (r, k) =>
    (⟨known + k, s.machineFor r.command, none⟩ : ScriptProcess)
  { s with processes := s.processes ++ fresh }

/-- The first action of a list that can be taken. -/
def first? (s : Session) (actions : List Action) : Option Session :=
  (actions.findSome? s.act?).map fun next => next.load s.state.runs.length

/-- A step of a process, which goes to the end of the queue. -/
def runProcess (s : Session) (p : ScriptProcess) (others : List ScriptProcess) : Session :=
  let isAlive := (s.state.runs[p.run]?.map Run.isAlive).getD false
  if !isAlive then { s with processes := others }
  else
    match p.machine.step s.state.files with
    | none =>
      { s with processes := others }.act (.exit p.run (p.machine.ended?.getD 0))
    | some turn =>
      let next : ScriptProcess := ⟨p.run, turn.machine, turn.sleep.map (s.now + ·)⟩
      ({ s with processes := others ++ [next], errors := s.errors ++ turn.err }.act
        (.alter p.run turn.files)).act (.emit p.run turn.out)

/-- Moves the clock on to the first time that a sleeper wakes. -/
def wake (s : Session) : Option Session :=
  (s.processes.filterMap (·.wakes)).min?.map fun time =>
    { s with
      now := max s.now time
      processes := s.processes.map fun p =>
        if p.wakes = some time then { p with wakes := none } else p }

/-- One step; `none` if nothing is left to do. -/
def step (s : Session) : Option Session :=
  (s.first? ((List.range s.state.calls.length).map .proceed)).orElse fun _ =>
    (s.first? ((List.range s.state.runs.length).map .watch)).orElse fun _ =>
      match s.processes.partition (·.wakes.isNone) with
      | (p :: awake, asleep) => some (s.runProcess p (awake ++ asleep))
      | ([], _) => s.wake

def runUntil (goal : Session → Bool) : Nat → Session → Session
  | 0, s => s
  | fuel + 1, s =>
    if goal s then s
    else match s.step with
      | some next => runUntil goal fuel next
      | none => s

/-- The steps that a session takes at most to meet one goal. -/
def patience : Nat := 1000000

def reach (s : Session) (goal : Session → Bool) : Session := runUntil goal patience s

/-- Calls the engine; the number is that of the call. -/
def call (s : Session) (job : Job) : Session × Nat := (s.act (.call job), s.state.calls.length)

def answer? (s : Session) (call : Nat) : Option (Except EngineError Reply) :=
  s.state.calls[call]?.bind Call.answer?

def isAnswered (call : Nat) (s : Session) : Bool := (s.answer? call).isSome

def ask (s : Session) (job : Job) : Session × Option (Except EngineError Reply) :=
  let (s, call) := s.call job
  let s := s.reach (isAnswered call)
  (s, s.answer? call)

def reports (s : Session) (run : Nat) : List Report := (s.state.runs[run]?.map Run.reports).getD []

def ending? (s : Session) (run : Nat) : Option (Outcome × List String) :=
  s.state.runs[run]?.bind Run.ending?

def hasEnded (run : Nat) (s : Session) : Bool := (s.ending? run).isSome

def awaitReports (s : Session) (run count : Nat) : Session :=
  s.reach fun s => hasEnded run s || count ≤ (s.reports run).length

def awaitEnd (s : Session) (run : Nat) : Session := s.reach (hasEnded run)

end Session

end Montage
