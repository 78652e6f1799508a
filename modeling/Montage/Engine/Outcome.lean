import Montage.FileTree
import Montage.Video.Tile

/-!
How processes end, and why the engine cannot do what it was called for.
-/

namespace Montage

inductive Outcome
  | finished (code : UInt8)
  /-- The engine killed it. -/
  | killed
  deriving DecidableEq, Repr

namespace Outcome

def isSuccess : Outcome → Bool
  | .finished code => code == 0
  | .killed => false

def text : Outcome → String
  | .finished code =>
    "Finished \x7b success: " ++ (if code = 0 then "true" else "false") ++ ", code: Some("
      ++ toString code.toNat ++ ") \x7d"
  | .killed => "Killed"

end Outcome

inductive ProcessFault
  | notStarted (binary : String) (e : IoError)
  | exited (code : UInt8)
  | cancelled
  deriving DecidableEq, Repr

namespace ProcessFault

def reason : ProcessFault → String
  | .notStarted binary e => "Failed to start " ++ binary ++ ": " ++ e.message
  | .exited code => "Render failed with exit code " ++ toString code.toNat
  | .cancelled => "Render was cancelled"

def messageOf (reason : String) : String := "Process error: " ++ reason

def message (p : ProcessFault) : String := messageOf p.reason

end ProcessFault

inductive EngineError
  /-- The request has no command. -/
  | compile (f : Fault)
  | process (p : ProcessFault)
  | io (e : IoError)
  deriving DecidableEq, Repr

namespace EngineError

def message : EngineError → String
  | .compile f => f.message
  | .process p => p.message
  | .io e => e.message

/-- Whether the request is at fault, and not what became of it. -/
def isCompile : EngineError → Bool
  | .compile _ => true
  | _ => false

end EngineError

end Montage
