import Montage.Command.Compile
import Montage.Config
import Montage.Engine.Run

/-!
The engine as a transition system.  It has two slots, and a call holds the lock of a slot from
before it kills the former occupant until its own process is there.  Calls, watchers and processes
take their steps in any order; `Engine.step` says what each step does, and when it has to wait.
-/

namespace Montage

/-- What an engine is set up with. -/
structure Engine where
  pow : Power
  config : Config
  binary : String
  place : Place

inductive Job
  | start (r : Request)
  | exportFile (r : Request)
  | thumbnails (r : Request)
  /-- Empties slots, one after the other. -/
  | kill (slots : List Slot)

inductive Reply
  | started (run : Nat) (c : Command)
  | exported (path : String)
  | killed
  deriving DecidableEq, Repr

/-- What a call has to do once its request is compiled. -/
inductive Errand
  | launch (slot : Slot) (command : Command) (waits : Bool)
  | kill (slots : List Slot)
  deriving DecidableEq, Repr

/-- How far a call has come. -/
inductive Phase
  | prepare
  /-- Waits for the lock of its slot. -/
  | acquire
  | evict (run : Nat)
  /-- Looks for what an earlier run left behind. -/
  | inspect
  | clear
  | makeWay
  | spawn
  | await (run : Nat)
  | done (answer : Except EngineError Reply)

structure Call where
  errand : Errand
  phase : Phase

/-- The lock of a slot and the run in it. -/
structure Seat where
  holder : Option Nat
  occupant : Option Nat
  deriving DecidableEq, Repr

structure EngineState where
  files : FileTree
  /-- All runs so far; a run is known by its place here. -/
  runs : List Run
  /-- All calls so far; a call is known by its place here. -/
  calls : List Call
  encode : Seat
  thumbnails : Seat

inductive Action
  | call (job : Job)
  | proceed (call : Nat)
  | watch (run : Nat)
  | emit (run : Nat) (bytes : Bytes)
  | alter (run : Nat) (files : FileTree)
  | exit (run : Nat) (code : UInt8)

namespace Call

def answer? (c : Call) : Option (Except EngineError Reply) :=
  match c.phase with
  | .done answer => some answer
  | _ => none

def finish (c : Call) (answer : Except EngineError Reply) : Call := { c with phase := .done answer }

end Call

namespace EngineState

def start (files : FileTree) : EngineState := ⟨files, [], [], ⟨none, none⟩, ⟨none, none⟩⟩

def seat (s : EngineState) : Slot → Seat
  | .encode => s.encode
  | .thumbnails => s.thumbnails

def setSeat (s : EngineState) : Slot → Seat → EngineState
  | .encode, seat => { s with encode := seat }
  | .thumbnails, seat => { s with thumbnails := seat }

def modifyRun (s : EngineState) (j : Nat) (f : Run → Run) : EngineState :=
  { s with runs := s.runs.modify j f }

def setCall (s : EngineState) (i : Nat) (c : Call) : EngineState :=
  { s with calls := s.calls.set i c }

def release (s : EngineState) (slot : Slot) : EngineState :=
  s.setSeat slot { s.seat slot with holder := none }

def isOver (s : EngineState) (j : Nat) : Bool := (s.runs[j]?.map Run.isOver).getD true

def isRunning (s : EngineState) (slot : Slot) : Bool :=
  match (s.seat slot).occupant with
  | some j => !s.isOver j
  | none => false

/-- Takes the lock of a slot for a call, and asks for the end of the run that is in it. -/
def acquire (s : EngineState) (i : Nat) (c : Call) (slot : Slot) (next : Phase) : EngineState :=
  match (s.seat slot).occupant with
  | some j =>
    ((s.setSeat slot ⟨some i, none⟩).modifyRun j .doom).setCall i { c with phase := .evict j }
  | none => (s.setSeat slot ⟨some i, none⟩).setCall i { c with phase := next }

end EngineState

namespace Engine

def outputOf (e : Engine) (c : Command) : String := e.config.resolveOutput c.output

/-- What a job comes to.  The mode of an export is looked at before all else. -/
def compile (e : Engine) : Job → Except Fault Errand
  | .start r => return .launch .encode (← r.compileFor e.pow .encode) false
  | .exportFile r => do
    Fault.ofRejection (Operation.exportFile.check r.mode)
    return .launch .encode (← r.compileFor e.pow .encode) true
  | .thumbnails r => return .launch .thumbnails (← r.compileFor e.pow .thumbnails) false
  | .kill slots => return .kill slots

/-- How a call begins.  A request that has no command is answered at once. -/
def begin (e : Engine) (job : Job) : Call :=
  match e.compile job with
  | .error f => ⟨.kill [], .done (.error (.compile f))⟩
  | .ok (.launch .encode c waits) => ⟨.launch .encode c waits, .prepare⟩
  | .ok errand => ⟨errand, .acquire⟩

/-- Whether the binary can be started in the working directory of the processor.  A path is seen
from there; a plain name would have to be searched for. -/
def canStart (e : Engine) (files : FileTree) (c : Command) : Except IoError Unit := do
  if (e.binary :: e.config.scratch :: c.args).any Path.hasZero then .error .zeroInArgument
  let dir ← files.locate e.place e.config.scratch
  match files.entry? dir with
  | none => .error .notFound
  | some (.file ..) => .error .notDirectory
  | some .directory =>
    if !e.binary.toList.contains '/' then .error .notFound
    else
      match files.entry? (← files.locate dir e.binary) with
      | none => .error .notFound
      | some .directory => .error .permissionDenied
      | some (.file _ executable) => if executable then return () else .error .permissionDenied

def stills (e : Engine) (files : FileTree) : Slot → List String
  | .encode => []
  | .thumbnails =>
    match files.listStills e.place e.config.thumbnailsDir with
    | .ok stills => stills
    | .error _ => []

/-- Whether an earlier run left something behind that has to go. -/
def leftover (e : Engine) (files : FileTree) (slot : Slot) (c : Command) : Except IoError Bool :=
  match slot with
  | .encode =>
    if c.mode = .render then files.pathExists e.place (e.outputOf c) else .ok false
  | .thumbnails => files.pathExists e.place e.config.thumbnailsDir

def clear (e : Engine) (files : FileTree) (slot : Slot) (c : Command) : Except IoError FileTree :=
  match slot with
  | .encode => files.removeFile e.place (e.outputOf c)
  | .thumbnails => files.removeTree e.place e.config.thumbnailsDir

def makeWay (e : Engine) (files : FileTree) (slot : Slot) (c : Command) :
    Except IoError FileTree :=
  match slot with
  | .encode =>
    match Path.parent? (e.outputOf c) with
    | some dir => files.makeDirectories e.place dir
    | none => .ok files
  | .thumbnails => files.makeDirectories e.place e.config.thumbnailsDir

/-- The answer of an export, by the end of its own run. -/
def exportAnswer (e : Engine) (c : Command) : Outcome → Except EngineError Reply
  | .finished code =>
    if code = 0 then .ok (.exported (e.outputOf c)) else .error (.process (.exited code))
  | .killed => .error (.process .cancelled)

/-- A step of a call that runs a command. -/
def proceedLaunch (e : Engine) (s : EngineState) (i : Nat) (c : Call) (slot : Slot)
    (command : Command) (waits : Bool) : Option EngineState :=
  let go (s : EngineState) (phase : Phase) : Option EngineState :=
    some (s.setCall i { c with phase })
  let fail (error : EngineError) : Option EngineState :=
    some ((s.release slot).setCall i (c.finish (.error error)))
  match c.phase with
  | .prepare =>
    match s.files.makeDirectories e.place e.config.scratch with
    | .ok files => go { s with files } .acquire
    | .error error => some (s.setCall i (c.finish (.error (.io error))))
  | .acquire => if (s.seat slot).holder = none then some (s.acquire i c slot .inspect) else none
  | .evict j => if s.isOver j then go s .inspect else none
  | .inspect =>
    match e.leftover s.files slot command with
    | .ok found => go s (if found then .clear else .makeWay)
    | .error error => fail (.io error)
  | .clear =>
    match e.clear s.files slot command with
    | .ok files => go { s with files } .makeWay
    | .error error => fail (.io error)
  | .makeWay =>
    match e.makeWay s.files slot command with
    | .ok files => go { s with files } .spawn
    | .error error => fail (.io error)
  | .spawn =>
    match e.canStart s.files command with
    | .ok () =>
      let j := s.runs.length
      let s := { s with runs := s.runs ++ [Run.start slot command] }.setSeat slot ⟨none, some j⟩
      go s (if waits then .await j else .done (.ok (.started j command)))
    | .error error => fail (.process (.notStarted e.binary error))
  | .await j =>
    match s.runs[j]? with
    | some run => run.outcome?.bind fun o => go s (.done (e.exportAnswer command o))
    | none => none
  | .done _ => none

def proceedKill (s : EngineState) (i : Nat) (c : Call) (slots : List Slot) : Option EngineState :=
  match c.phase, slots with
  | .done _, _ => none
  | _, [] => some (s.setCall i (c.finish (.ok .killed)))
  | .evict j, slot :: rest =>
    if s.isOver j then some ((s.release slot).setCall i ⟨.kill rest, .acquire⟩) else none
  | _, slot :: rest =>
    if (s.seat slot).holder = none then
      match (s.seat slot).occupant with
      | some _ => some (s.acquire i c slot .acquire)
      | none => some (s.setCall i ⟨.kill rest, .acquire⟩)
    else none

/-- What an action does; `none` if it cannot be taken now. -/
def step (e : Engine) (s : EngineState) : Action → Option EngineState
  | .call job => some { s with calls := s.calls ++ [e.begin job] }
  | .proceed i => do
    let c ← s.calls[i]?
    match c.errand with
    | .launch slot command waits => e.proceedLaunch s i c slot command waits
    | .kill slots => proceedKill s i c slots
  | .watch j => do
    let run ← s.runs[j]?
    let next ← run.watch (e.stills s.files run.slot)
    return { s with runs := s.runs.set j next }
  | .emit j bytes => do
    let run ← s.runs[j]?
    if run.isAlive then
      return { s with runs := s.runs.set j { run with unread := run.unread ++ bytes } }
    else none
  | .alter j files => do
    let run ← s.runs[j]?
    if run.isAlive then return { s with files } else none
  | .exit j code => do
    let run ← s.runs[j]?
    if run.isAlive then
      return { s with runs := s.runs.set j { run with life := .exited code } }
    else none

def steps (e : Engine) (s : EngineState) : List Action → Option EngineState
  | [] => some s
  | a :: rest => (e.step s a).bind fun s => e.steps s rest

end Engine

end Montage
