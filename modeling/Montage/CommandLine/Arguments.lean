import Montage.Geometry
import Montage.Text.Blank
import Montage.Timeline.Mode

/-!
Arguments of the command line.  Options may stand before and after operands; two hyphens end them.
General options are read before the name of the subcommand and after it, and what is given after
it counts.  Arguments that do not fit have no reading, whatever is wrong with them.
-/

namespace Montage.CommandLine

structure OptionSpec where
  name : String
  letter : Option Char
  hasValue : Bool

/-- What was given at one level: options by name, a flag with an empty text, and operands. -/
structure Given where
  options : List (String × String)
  operands : List String

namespace Given

def empty : Given := ⟨[], []⟩

/-- No option is given twice. -/
def add (g : Given) (name value : String) : Option Given :=
  if (g.options.lookup name).isSome then none
  else some { g with options := g.options ++ [(name, value)] }

def addOperand (g : Given) (s : String) : Given := { g with operands := g.operands ++ [s] }

def has (g : Given) (name : String) : Bool := (g.options.lookup name).isSome

end Given

/-- A long option without its hyphens: its name, and the value after an equals sign.  The result
names the option that still lacks its value. -/
def readLong (specs : List OptionSpec) (g : Given) (body : List Char) :
    Option (Given × Option String) := do
  let (name, value) := match Text.splitAtFirst? '=' body with
    | some (name, value) => (name, some (String.ofList value))
    | none => (body, none)
  let spec ← specs.find? (·.name == String.ofList name)
  match spec.hasValue, value with
  | true, some v => return (← g.add spec.name v, none)
  | true, none => return (g, some spec.name)
  | false, some _ => none
  | false, none => return (← g.add spec.name "", none)

/-- Options by letter; what follows one that has a value is the value. -/
def readLetters (specs : List OptionSpec) (g : Given) : List Char → Option (Given × Option String)
  | [] => some (g, none)
  | c :: rest => do
    let spec ← specs.find? (·.letter == some c)
    if spec.hasValue then
      match rest with
      | [] => return (g, some spec.name)
      | '=' :: value => return (← g.add spec.name (String.ofList value), none)
      | value => return (← g.add spec.name (String.ofList value), none)
    else readLetters specs (← g.add spec.name "") rest

/-- Reads arguments up to the end or, where `stops` holds, up to the first operand; the rest begins
with that operand. -/
def readArguments (specs : List OptionSpec) (stops : Bool) (g : Given) :
    List String → Option (Given × List String)
  | [] => some (g, [])
  | a :: rest =>
    let goOn : Option (Given × Option String) → Option (Given × List String)
      | none => none
      | some (g, none) => readArguments specs stops g rest
      | some (g, some name) => match rest with
        | [] => none
        | v :: rest =>
          if v.startsWith "-" && v != "-" then none
          else (g.add name v).bind fun g => readArguments specs stops g rest
    match a.toList with
    | ['-', '-'] => if stops then none else some (rest.foldl .addOperand g, [])
    | '-' :: '-' :: body => goOn (readLong specs g body)
    | '-' :: c :: letters => goOn (readLetters specs g (c :: letters))
    | _ => if stops then some (g, a :: rest) else readArguments specs stops (g.addOperand a) rest

/-! ## The options of this program -/

def generalOptions : List OptionSpec :=
  [⟨"verbose", some 'v', false⟩, ⟨"config", none, true⟩, ⟨"scratch", none, true⟩,
   ⟨"ffmpeg", none, true⟩]

inductive Subcommand
  | compile (request : String) (mode : Option OutputMode) (json : Bool)
  | render (request : String) (output : Option String)
  | preview (request : String)
  | thumbnails (request : String)
  | layout (kind : String) (canvas : Size)
  deriving DecidableEq, Repr

structure Invocation where
  verbose : Bool
  config : Option String
  scratch : Option String
  binary : Option String
  command : Subcommand
  deriving DecidableEq, Repr

def optionsOf : String → Option (List OptionSpec)
  | "compile" => some [⟨"mode", none, true⟩, ⟨"json", none, false⟩]
  | "render" => some [⟨"output", some 'o', true⟩]
  | "preview" => some []
  | "thumbnails" => some []
  | "layout" => some [⟨"width", none, true⟩, ⟨"height", none, true⟩]
  | _ => none

def pathOption? (g : Given) (name : String) : Option (Option String) :=
  match g.options.lookup name with
  | none => some none
  | some "" => none
  | some path => some (some path)

/-- The value of an option as a length in pixels.  A minus sign is allowed before zero. -/
def lengthOption? (g : Given) (name : String) (standard : UInt32) : Option UInt32 :=
  match (g.options.lookup name).map String.toList with
  | none => some standard
  | some ('-' :: ds) => if !ds.isEmpty && ds.all (· = '0') then some 0 else none
  | some cs => (Decimal.readWhole? UInt32.size cs).map UInt32.ofNat

def modeOption? (g : Given) : Option (Option OutputMode) :=
  match g.options.lookup "mode" with
  | none => some none
  | some s => (OutputMode.parse s).toOption.map some

def operand? (g : Given) : Option String :=
  match g.operands with
  | [s] => some s
  | _ => none

def requestOperand? (g : Given) : Option String := (operand? g).filter (· ≠ "")

def subcommand? (name : String) (g : Given) : Option Subcommand :=
  match name with
  | "compile" => return .compile (← requestOperand? g) (← modeOption? g) (g.has "json")
  | "render" => return .render (← requestOperand? g) (← pathOption? g "output")
  | "preview" => return .preview (← requestOperand? g)
  | "thumbnails" => return .thumbnails (← requestOperand? g)
  | "layout" =>
    return .layout (← operand? g)
      ⟨← lengthOption? g "width" Size.fullHD.width, ← lengthOption? g "height" Size.fullHD.height⟩
  | _ => none

/-- What the arguments ask for; `none` if they do not fit. -/
def Invocation.ofArguments (args : List String) : Option Invocation := do
  match ← readArguments generalOptions true .empty args with
  | (_, []) => none
  | (outer, name :: rest) => do
    let (inner, _) ← readArguments (generalOptions ++ (← optionsOf name)) false .empty rest
    let path (name : String) : Option (Option String) := do
      let before ← pathOption? outer name
      return (← pathOption? inner name).or before
    return {
      verbose := outer.has "verbose" || inner.has "verbose"
      config := ← path "config"
      scratch := ← path "scratch"
      binary := ← path "ffmpeg"
      command := ← subcommand? name inner }

end Montage.CommandLine
