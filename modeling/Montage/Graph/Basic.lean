import Montage.Graph.Node

/-!
Filter graphs: nodes in the order they were added, the order they are written in, and the rule
that every pad is written once and read once.
-/

namespace Montage

structure Graph where
  nodes : List Node
  deriving DecidableEq, Repr

namespace Graph

def empty : Graph := ⟨[]⟩

def add (g : Graph) (n : Node) : Graph := ⟨g.nodes ++ [n]⟩

def merge (g h : Graph) : Graph := ⟨g.nodes ++ h.nodes⟩

def size (g : Graph) : Nat := g.nodes.length

def isEmpty (g : Graph) : Bool := g.nodes.isEmpty

def atStage (g : Graph) (s : Stage) : List Node := g.nodes.filter (·.stage == s)

def count (g : Graph) (s : Stage) : Nat := (g.atStage s).length

/-- The nodes stage by stage; within a stage they keep the order they were added in. -/
def ordered (g : Graph) : List Node := Stage.all.flatMap g.atStage

def produced (g : Graph) : List Pad := g.nodes.flatMap (·.outputs)

def consumed (g : Graph) : List Pad := g.nodes.flatMap (·.inputs)

end Graph

/-- A pad that is not both written once and read once. -/
inductive EdgeError
  | duplicateProducer (p : Pad)
  | duplicateConsumer (p : Pad)
  | dangling (p : Pad)
  | unconsumed (p : Pad)
  deriving DecidableEq, Repr

def EdgeError.message : EdgeError → String
  | .duplicateProducer p => "pad [" ++ p.label ++ "] is produced more than once"
  | .duplicateConsumer p => "pad [" ++ p.label ++ "] is consumed more than once"
  | .dangling p => "pad [" ++ p.label ++ "] is consumed but never produced"
  | .unconsumed p => "pad [" ++ p.label ++ "] is produced but never consumed or mapped"

namespace Graph

/-- What is wrong with a pad that some node writes. -/
def outputFault? (written read : List Pad) (p : Pad) : Option EdgeError :=
  if 1 < written.count p then some (.duplicateProducer p)
  else if read.count p = 0 then some (.unconsumed p)
  else if 1 < read.count p then some (.duplicateConsumer p)
  else none

/-- Every pad is written once and read once, where the terminals count as read.  Faults of written
pads are found first, in the order the pads are written. -/
def checkEdges (g : Graph) (terminals : List Pad) : Except EdgeError Unit :=
  let written := g.produced
  let read := g.consumed ++ terminals
  match written.findSome? (outputFault? written read) with
  | some e => .error e
  | none =>
    match read.find? fun p => !written.contains p with
    | some p => .error (.dangling p)
    | none => .ok ()

end Graph

end Montage
