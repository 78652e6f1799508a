import Montage.Decimal.Reading
import Montage.Json.Tree
import Montage.Text.Quoted

/-!
Reading a tree as a value of a known kind.  Reading follows the order of the text and stops at the
first thing amiss: a value of the wrong kind, or the place where the text itself goes wrong.

A record may be written as an object or as an array of its fields in order.  The two origins of a
tree differ only in how they speak of a few faults: in a text that is still being read, what does
not belong there is a fault of the text; in a value that was read before, it is a mismatch.
-/

namespace Montage.Json

/-- Where a tree comes from: a text being read, or a value read before. -/
inductive Origin
  | text
  | value
  deriving DecidableEq, Repr

inductive Found
  | number (n : Number)
  | bool (b : Bool)
  | string (s : String)
  | null
  | sequence
  | map
  deriving DecidableEq, Repr

def Found.message : Found → String
  | .number (.whole n) => "integer `" ++ toString n ++ "`"
  | .number (.real x) => "floating point `" ++ String.ofList (Decimal.dataForm.write x) ++ "`"
  | .bool b => "boolean `" ++ (if b then "true" else "false") ++ "`"
  | .string s => "string " ++ Text.quoted s
  | .null => "null"
  | .sequence => "sequence"
  | .map => "map"

/-- How a readable value fails to be what was asked for. -/
inductive Mismatch
  | invalidType (found : Found) (expected : String)
  | invalidValue (found : Found) (expected : String)
  | invalidLength (count : Nat) (expected : String)
  | unknownVariant (name : String) (known : List String)
  | missingField (name : String)
  | duplicateField (name : String)
  /-- The value's own rules refuse it. -/
  | refused (reason : String)
  deriving DecidableEq, Repr

def ticked (s : String) : String := "`" ++ s ++ "`"

def Mismatch.message : Mismatch → String
  | .invalidType found expected =>
    "invalid type: " ++ found.message ++ ", expected " ++ expected
  | .invalidValue found expected =>
    "invalid value: " ++ found.message ++ ", expected " ++ expected
  | .invalidLength count expected =>
    "invalid length " ++ toString count ++ ", expected " ++ expected
  | .unknownVariant name known =>
    "unknown variant " ++ ticked name ++ ", expected one of "
      ++ String.intercalate ", " (known.map ticked)
  | .missingField name => "missing field " ++ ticked name
  | .duplicateField name => "duplicate field " ++ ticked name
  | .refused reason => reason

/-- Why a document holds no value of the kind asked for. -/
inductive ReadError
  | mismatch (m : Mismatch)
  | broken (b : Break)
  deriving DecidableEq, Repr

def ReadError.message : ReadError → String
  | .mismatch m => m.message
  | .broken .early => "the text ends too early"
  | .broken .malformed => "the text is malformed"

/-- Reads a tree of either origin. -/
abbrev Reader (α : Type) := Origin → Tree → Except ReadError α

/-- The error for a value that is not of the expected kind.  A scalar is read to its end first, so
a fault within it wins; of an array or an object only the start is looked at. -/
def unexpected (expected : String) (t : Tree) : ReadError :=
  let mismatch found := .mismatch (.invalidType found expected)
  match t with
  | .absent => .broken .early
  | .broken b => .broken b.read
  | .null => mismatch .null
  | .bool b => mismatch (.bool b)
  | .number (.ok n) => mismatch (.number n)
  | .number (.error b) => .broken b
  | .string ⟨.ok s, _⟩ => mismatch (.string s)
  | .string ⟨.error b, _⟩ => .broken b
  | .array _ => mismatch .sequence
  | .object _ => mismatch .map

namespace Reader

def bool : Reader Bool := fun _ t =>
  match t with
  | .bool b => .ok b
  | t => .error (unexpected "a boolean" t)

def stringAs (expected : String) : Reader String := fun _ t =>
  match t with
  | .string ⟨.ok s, _⟩ => .ok s
  | t => .error (unexpected expected t)

def string : Reader String := stringAs "a string"

def ofWhole (n : Int) : Float := Decimal.nearest (n < 0) n.natAbs 0

def float : Reader Float := fun _ t =>
  match t with
  | .number (.ok (.whole n)) => .ok (ofWhole n)
  | .number (.ok (.real x)) => .ok x
  | t => .error (unexpected "f64" t)

def word : Reader UInt32 := fun _ t =>
  match t with
  | .number (.ok (.whole n)) =>
    if 0 ≤ n ∧ n < UInt32.size then .ok (UInt32.ofNat n.toNat)
    else .error (.mismatch (.invalidValue (.number (.whole n)) "u32"))
  | t => .error (unexpected "u32" t)

/-- Nothing, written as null, or a value. -/
def optional {α : Type} (r : Reader α) : Reader (Option α) := fun o t =>
  match t with
  | .null => .ok none
  | t => (r o t).map some

def unit : Reader Unit := fun _ t =>
  match t with
  | .null => .ok ()
  | t => .error (unexpected "unit" t)

def list {α : Type} (r : Reader α) : Reader (List α) := fun o t =>
  match t with
  | .array items => go o items
  | t => .error (unexpected "a sequence" t)
where
  go (o : Origin) : Items → Except ReadError (List α)
    | .closed => .ok []
    | .cut b => .error (.broken b)
    | .cons head tail => do
      let a ← r o head
      let as ← go o tail
      return a :: as

end Reader

def Items.length : Items → Nat
  | .closed | .cut _ => 0
  | .cons _ tail => tail.length + 1

/-- Nothing may follow the last item of an array of fixed length; `total` counts all its items. -/
def Items.finish (o : Origin) (total : Nat) : Items → Except ReadError Unit
  | .closed => .ok ()
  | .cut b => .error (.broken b)
  | .cons _ _ => match o with
    | .text => .error (.broken .malformed)
    | .value => .error (.mismatch (.invalidLength total "fewer elements in array"))

def Reader.pair {α β : Type} (first : Reader α) (second : Reader β) : Reader (α × β) := fun o t =>
  match t with
  | .array items => do
    let total := items.length
    let (a, rest) ← item first o 0 items
    let (b, rest) ← item second o 1 rest
    rest.finish o total
    return (a, b)
  | t => .error (unexpected expected t)
where
  expected : String := "a tuple of size 2"
  item {γ : Type} (r : Reader γ) (o : Origin) (at_ : Nat) :
      Items → Except ReadError (γ × Items)
    | .closed => .error (.mismatch (.invalidLength at_ expected))
    | .cut b => .error (.broken b)
    | .cons head tail => (r o head).map (·, tail)

/-- A choice without content: its name, or an object with the name as its only key and null as
the value. -/
def Reader.choice {α : Type} (known : List String) (named : String → Option α) : Reader α :=
    fun o t =>
  match t with
  | .string ⟨.ok s, _⟩ => pick s
  | .string ⟨.error b, _⟩ => .error (.broken b)
  | .object members => match o with
    | .text => ofText o members
    | .value => ofValue o members
  | .absent => .error (.broken .early)
  | t => match o with
    | .text => .error (.broken .malformed)
    | .value => .error (unexpected "string or map" t)
where
  pick (s : String) : Except ReadError α :=
    match named s with
    | some a => .ok a
    | none => .error (.mismatch (.unknownVariant s known))
  ofText (o : Origin) : Members → Except ReadError α
    | .closed => .error (.broken .malformed)
    | .cut b => .error (.broken b)
    | .unquoted key => .error (unexpected "variant identifier" key)
    | .cons key value tail => do
      let s ← match key.text with
        | .ok s => .ok s
        | .error b => .error (.broken b)
      let a ← pick s
      Reader.unit o value
      match tail with
      | .closed => .ok a
      | .cut b => .error (.broken b)
      | .unquoted _ | .cons _ _ _ => .error (.broken .malformed)
  ofValue (o : Origin) : Members → Except ReadError α
    | .cons ⟨.ok s, _⟩ value .closed => do
      let a ← pick s
      Reader.unit o value
      return a
    | _ => .error (.mismatch (.invalidValue .map "map with a single key"))

/-- A field of a record, read into a draft of it. -/
structure Field (δ : Type) where
  name : String
  /-- Another name that counts as the same. -/
  alias? : Option String
  isSet : δ → Bool
  read : Origin → Tree → δ → Except ReadError δ

def Field.answersTo {δ : Type} (f : Field δ) (key : String) : Bool :=
  key == f.name || f.alias? == some key

/-- A field with a reader of its own. -/
def Field.of {δ α : Type} (name : String) (get : δ → Option α) (set : δ → α → δ) (r : Reader α) :
    Field δ where
  name := name
  alias? := none
  isSet d := (get d).isSome
  read o t d := (r o t).map (set d)

/-- A record by its fields in order.  `complete` fills in what may be left out, and names the
first field that may not. -/
structure Record (δ α : Type) where
  name : String
  fields : List (Field δ)
  /-- As many items an array has to have. -/
  least : Nat
  empty : δ
  complete : δ → Except String α

namespace Record

variable {δ α : Type}

def ofArray (fields : List (Field δ)) (o : Origin) (total : Nat) (d : δ) :
    Items → Except ReadError δ
  | .closed => .ok d
  | .cut b => .error (.broken b)
  | .cons head tail => match fields with
    | [] => (Items.cons head tail).finish o total |>.map fun _ => d
    | f :: fs => do
      let d ← f.read o head d
      ofArray fs o total d tail

def ofObject (fields : List (Field δ)) (o : Origin) (d : δ) : Members → Except ReadError δ
  | .closed => .ok d
  | .cut b => .error (.broken b)
  | .unquoted _ => .error (.broken .malformed)
  | .cons key value tail => do
    let s ← match key.text with
      | .ok s => .ok s
      | .error b => .error (.broken b)
    match fields.find? (·.answersTo s) with
    | none =>
      match value.skip with
      | .ok () => ofObject fields o d tail
      | .error b => .error (.broken b)
    | some f =>
      if f.isSet d then .error (.mismatch (.duplicateField f.name))
      else do
        let d ← f.read o value d
        ofObject fields o d tail

def expectation (r : Record δ α) : String :=
  let n := r.fields.length
  "struct " ++ r.name ++ " with " ++ toString n ++ (if n = 1 then " element" else " elements")

def reader (r : Record δ α) : Reader α := fun o t =>
  match t with
  | .object members => do finish (← ofObject r.fields o r.empty members)
  | .array items => do
    let d ← ofArray r.fields o items.length r.empty items
    if items.length < r.least then
      .error (.mismatch (.invalidLength items.length r.expectation))
    else finish d
  | t => .error (unexpected ("struct " ++ r.name) t)
where
  finish (d : δ) : Except ReadError α :=
    match r.complete d with
    | .ok a => .ok a
    | .error name => .error (.mismatch (.missingField name))

end Record

/-- The value that a whole text holds.  What follows it is a fault of the text. -/
def Document.read {α : Type} (r : Reader α) (d : Document) : Except ReadError α := do
  let a ← r .text d.tree
  if d.trailing then .error (.broken .malformed) else return a

/-- The same from a value read before. -/
def Value.read {α : Type} (r : Reader α) (v : Value) : Except ReadError α := r .value v.toTree

end Montage.Json
