import Montage.Json.Value

/-!
A JSON text as far as it can be read.  A text that breaks off or goes wrong still has a tree: the
tree holds what stood before the fault and the fault in its place, so that whoever reads it in
order meets first whatever comes first, be it a fault of the text or a value of the wrong kind.
-/

namespace Montage.Json

inductive Break
  | early
  | malformed
  deriving DecidableEq, Repr

/-- A token can be read for its value or only passed over, and passing over looks at less. -/
structure Breaks where
  read : Break
  skip : Break
  deriving DecidableEq, Repr

def Breaks.both (b : Break) : Breaks := ⟨b, b⟩

/-- A quoted text: its content or why it has none, and why it cannot even be passed over. -/
structure Quote where
  text : Except Break String
  skip : Option Break

mutual

inductive Tree
  /-- The text ends where a value should start. -/
  | absent
  /-- A value starts and goes wrong. -/
  | broken (b : Breaks)
  | null
  | bool (b : Bool)
  | number (value : Except Break Number)
  | string (q : Quote)
  | array (items : Items)
  | object (members : Members)

inductive Items
  | closed
  /-- Neither a comma nor the bracket follows. -/
  | cut (b : Break)
  | cons (head : Tree) (tail : Items)

inductive Members
  | closed
  /-- Neither a comma nor the brace follows. -/
  | cut (b : Break)
  /-- The first key is no quoted text. -/
  | unquoted (key : Tree)
  | cons (key : Quote) (value : Tree) (tail : Members)

end

/-- A whole text: its value, and whether anything but blanks follows. -/
structure Document where
  tree : Tree
  trailing : Bool

mutual

/-- The fault met when the value is passed over. -/
def Tree.skip : Tree → Except Break Unit
  | .absent => .error .early
  | .broken b => .error b.skip
  | .string q => match q.skip with
    | some b => .error b
    | none => .ok ()
  | .array items => items.skip
  | .object members => members.skip
  | .null | .bool _ | .number _ => .ok ()

def Items.skip : Items → Except Break Unit
  | .closed => .ok ()
  | .cut b => .error b
  | .cons head tail => do head.skip; tail.skip

def Members.skip : Members → Except Break Unit
  | .closed => .ok ()
  | .cut b => .error b
  | .unquoted _ => .error .malformed
  | .cons key value tail => do
    match key.skip with
    | some b => .error b
    | none => value.skip; tail.skip

end

/-- Puts a member among members sorted by key, in place of one with the same key. -/
def insertMember (k : String) (v : Value) : List (String × Value) → List (String × Value)
  | [] => [(k, v)]
  | (k', v') :: rest =>
    if k < k' then (k, v) :: (k', v') :: rest
    else if k = k' then (k, v) :: rest
    else (k', v') :: insertMember k v rest

mutual

/-- The value of a text that is sound throughout and nests at most `depth` levels.  Members are
sorted by key, and of equal keys the last counts. -/
def Tree.value? (depth : Nat) : Tree → Option Value
  | .absent => none
  | .broken _ => none
  | .null => some .null
  | .bool b => some (.bool b)
  | .number n => n.toOption.map .number
  | .string q => q.text.toOption.map .string
  | .array items => match depth with
    | 0 => none
    | depth + 1 => (items.values? depth).map .array
  | .object members => match depth with
    | 0 => none
    | depth + 1 => (members.values? depth []).map .object

def Items.values? (depth : Nat) : Items → Option (List Value)
  | .closed => some []
  | .cut _ => none
  | .cons head tail => do
    let v ← head.value? depth
    let vs ← tail.values? depth
    return v :: vs

def Members.values? (depth : Nat) (found : List (String × Value)) :
    Members → Option (List (String × Value))
  | .closed => some found
  | .cut _ => none
  | .unquoted _ => none
  | .cons key value tail => do
    let k ← key.text.toOption
    let v ← value.value? depth
    tail.values? depth (insertMember k v found)

end

/-- Texts that nest deeper than this are refused when their whole value is asked for. -/
def maxDepth : Nat := 127

/-- The value of the whole text. -/
def Document.value? (d : Document) : Option Value :=
  if d.trailing then none else d.tree.value? maxDepth

mutual

def Value.toTree : Value → Tree
  | .null => .null
  | .bool b => .bool b
  | .number n => .number (.ok n)
  | .string s => .string ⟨.ok s, none⟩
  | .array items => .array (itemsToTree items)
  | .object members => .object (membersToTree members)

def itemsToTree : List Value → Items
  | [] => .closed
  | v :: rest => .cons v.toTree (itemsToTree rest)

def membersToTree : List (String × Value) → Members
  | [] => .closed
  | (k, v) :: rest => .cons ⟨.ok k, none⟩ v.toTree (membersToTree rest)

end

end Montage.Json
