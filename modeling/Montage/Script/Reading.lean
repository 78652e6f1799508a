import Montage.Script.Basic

/-!
Reading scripts: characters to words and marks, and these to commands.  Both readers get as much
fuel as there is text, and a script that is not well formed is not read at all.
-/

namespace Montage.Script

def isNameStart (c : Char) : Bool := c.isAlpha || c = '_'

def isNameChar (c : Char) : Bool := c.isAlphanum || c = '_'

def isMark (c : Char) : Bool := " \t\n;&|<>()".toList.contains c

def splitName (cs : List Char) : String × List Char :=
  let (name, rest) := cs.span isNameChar
  (String.ofList name, rest)

/-- The text up to the closing brackets of an arithmetic expression. -/
def splitSum : Nat → List Char → List Char × List Char
  | _, [] => ([], [])
  | 0, ')' :: ')' :: rest => ([], rest)
  | depth, c :: rest =>
    let depth := if c = '(' then depth + 1 else if c = ')' then depth - 1 else depth
    let (inner, rest) := splitSum depth rest
    (c :: inner, rest)

/-- What a dollar sign stands for, from the characters after it. -/
def readDollar (quoted : Bool) : List Char → Piece × List Char
  | '(' :: '(' :: cs =>
    let (inner, rest) := splitSum 0 cs
    (.sum inner quoted, rest)
  | '\x7b' :: cs =>
    let (inner, rest) := cs.span (· ≠ '\x7d')
    let (name, more) := match inner with
      | c :: cs => if isNameStart c then splitName inner else (String.singleton c, cs)
      | [] => ("", [])
    let fallback := match more with
      | ':' :: '-' :: word => some word
      | '-' :: word => some word
      | _ => none
    (.value name fallback quoted, rest.drop 1)
  | c :: cs =>
    if isNameStart c then
      let (name, rest) := splitName (c :: cs)
      (.value name none quoted, rest)
    else if c.isDigit || "@*#?$!".toList.contains c then
      (.value (String.singleton c) none quoted, cs)
    else (.text ['$'] quoted, c :: cs)
  | [] => (.text ['$'] quoted, [])

def readDouble : Nat → List Char → Option (Word × List Char)
  | 0, _ => none
  | _, [] => none
  | _ + 1, '"' :: rest => some ([], rest)
  | fuel + 1, '\\' :: c :: rest =>
    let here := if c = '\n' then [] else if "$\"\\".toList.contains c then [c] else ['\\', c]
    (readDouble fuel rest).map fun (w, rest) => (.text here true :: w, rest)
  | fuel + 1, '$' :: rest =>
    let (p, rest) := readDollar true rest
    (readDouble fuel rest).map fun (w, rest) => (p :: w, rest)
  | fuel + 1, c :: rest =>
    (readDouble fuel rest).map fun (w, rest) => (.text [c] true :: w, rest)

/-- Joins neighbouring texts that are quoted alike. -/
def joinTexts : Word → Word
  | [] => []
  | .text a q :: rest =>
    match joinTexts rest with
    | .text b r :: more => if q = r then .text (a ++ b) q :: more else .text a q :: .text b r :: more
    | more => .text a q :: more
  | p :: rest => p :: joinTexts rest

def readWord : Nat → List Char → Option (Word × List Char)
  | 0, _ => none
  | _, [] => some ([], [])
  | fuel + 1, '\'' :: rest =>
    match rest.span (· ≠ '\'') with
    | (_, []) => none
    | (inner, _ :: rest) =>
      (readWord fuel rest).map fun (w, rest) => (.text inner true :: w, rest)
  | fuel + 1, '"' :: rest => do
    let (inner, rest) ← readDouble (rest.length + 1) rest
    let (w, rest) ← readWord fuel rest
    return (.text [] true :: inner ++ w, rest)
  | fuel + 1, '\\' :: c :: rest =>
    (readWord fuel rest).map fun (w, rest) =>
      (if c = '\n' then w else .text [c] true :: w, rest)
  | fuel + 1, '$' :: rest =>
    let (p, rest) := readDollar false rest
    (readWord fuel rest).map fun (w, rest) => (p :: w, rest)
  | fuel + 1, c :: rest =>
    if isMark c then some ([], c :: rest)
    else (readWord fuel rest).map fun (w, rest) => (.text [c] false :: w, rest)

def readRedirect (descriptor : Option Nat) : List Char → Option (Token × List Char)
  | '>' :: '>' :: rest => some (.redirect (descriptor.getD 1) .append, rest)
  | '>' :: '&' :: rest => some (.redirect (descriptor.getD 1) .copy, rest)
  | '>' :: '|' :: rest => some (.redirect (descriptor.getD 1) .write, rest)
  | '>' :: rest => some (.redirect (descriptor.getD 1) .write, rest)
  | '<' :: '&' :: rest => some (.redirect (descriptor.getD 0) .copy, rest)
  | '<' :: rest => some (.redirect (descriptor.getD 0) .read, rest)
  | _ => none

def readTokens : Nat → List Char → Option (List Token)
  | 0, _ => none
  | _, [] => some []
  | fuel + 1, c :: rest =>
    let op (s : String) (rest : List Char) := (readTokens fuel rest).map (Token.op s :: ·)
    match c, rest with
    | ' ', _ | '\t', _ => readTokens fuel rest
    | '#', _ => readTokens fuel (rest.dropWhile (· ≠ '\n'))
    | '\\', '\n' :: rest => readTokens fuel rest
    | '\n', _ => op "\n" rest
    | ';', ';' :: rest => op ";;" rest
    | ';', _ => op ";" rest
    | '&', '&' :: rest => op "&&" rest
    | '|', '|' :: rest => op "||" rest
    | '&', _ => op "&" rest
    | '|', _ => op "|" rest
    | '(', _ => op "(" rest
    | ')', _ => op ")" rest
    | _, _ =>
      let (digits, after) := (c :: rest).span Char.isDigit
      let descriptor := if digits.isEmpty then none else String.toNat? (String.ofList digits)
      match readRedirect descriptor after with
      | some (t, rest) => (readTokens fuel rest).map (t :: ·)
      | none => do
        let (w, rest) ← readWord (rest.length + 2) (c :: rest)
        let tokens ← readTokens fuel rest
        return .word (joinTexts w) :: tokens

/-- The words that end a list of commands. -/
def closers : List String := ["then", "do", "done", "fi", "else", "elif", "esac", "\x7d"]

def skipLines (ts : List Token) : List Token :=
  ts.dropWhile fun
    | .op s => s == "\n" || s == ";"
    | _ => false

def skipNewlines (ts : List Token) : List Token :=
  ts.dropWhile fun
    | .op s => s == "\n"
    | _ => false

def expectWord (s : String) : List Token → Option (List Token)
  | t :: rest => if t.bare? = some s then some rest else none
  | [] => none

def assignment? : Word → Option (String × Word)
  | .text s false :: rest =>
    let (name, after) := s.span isNameChar
    match name, after with
    | c :: _, '=' :: value =>
      if isNameStart c then
        some (String.ofList name, if value.isEmpty then rest else .text value false :: rest)
      else none
    | _, _ => none
  | _ => none

def readWords : List Token → List Word × List Token
  | .word w :: rest =>
    let (ws, rest) := readWords rest
    (w :: ws, rest)
  | rest => ([], rest)

def readRedirects : List Token → Option (List Redirect × List Token)
  | .redirect d k :: .word w :: rest => do
    let (rs, rest) ← readRedirects rest
    return (⟨d, k, w⟩ :: rs, rest)
  | .redirect _ _ :: _ => none
  | rest => some ([], rest)

def readSimple : List Token → Option (List Word × List Redirect × List Token)
  | .word w :: rest => do
    let (ws, rs, rest) ← readSimple rest
    return (w :: ws, rs, rest)
  | .redirect d k :: .word w :: rest => do
    let (ws, rs, rest) ← readSimple rest
    return (ws, ⟨d, k, w⟩ :: rs, rest)
  | .redirect _ _ :: _ => none
  | rest => some ([], [], rest)

def splitAssignments : List Word → List (String × Word) × List Word
  | w :: rest => match assignment? w with
    | some a =>
      let (as, ws) := splitAssignments rest
      (a :: as, ws)
    | none => ([], w :: rest)
  | [] => ([], [])

def withRedirects (c : Command) (rs : List Redirect) : Command :=
  if rs.isEmpty then c else .redirected c rs

/-- The patterns of one arm, up to its bracket. -/
def readPatterns : List Token → Option (List Word × List Token)
  | .word w :: .op ")" :: rest => some ([w], rest)
  | .word w :: .op "|" :: rest => do
    let (ws, rest) ← readPatterns rest
    return (w :: ws, rest)
  | _ => none

mutual

/-- Commands up to a closing word or mark. -/
def readList : Nat → List Token → Option (List Command × List Token)
  | 0, _ => none
  | fuel + 1, ts =>
    match skipLines ts with
    | [] => some ([], [])
    | .op ")" :: rest => some ([], .op ")" :: rest)
    | .op ";;" :: rest => some ([], .op ";;" :: rest)
    | t :: rest =>
      if (t.bare?.map closers.contains).getD false then some ([], t :: rest)
      else do
        let (c, rest) ← readChain fuel (t :: rest)
        match rest with
        | [] => return ([c], [])
        | .op s :: more =>
          if s = ";" ∨ s = "\n" then
            let (cs, rest) ← readList fuel more
            return (c :: cs, rest)
          else if s = ")" ∨ s = ";;" then return ([c], rest)
          else none
        | _ => none

/-- Commands joined by `&&` and `||`. -/
def readChain : Nat → List Token → Option (Command × List Token)
  | 0, _ => none
  | fuel + 1, ts => do
    let (c, rest) ← readCommand fuel ts
    readChainRest fuel c rest

def readChainRest : Nat → Command → List Token → Option (Command × List Token)
  | 0, _, _ => none
  | fuel + 1, c, .op "&&" :: rest => do
    let (d, rest) ← readCommand fuel (skipNewlines rest)
    readChainRest fuel (.both c d) rest
  | fuel + 1, c, .op "||" :: rest => do
    let (d, rest) ← readCommand fuel (skipNewlines rest)
    readChainRest fuel (.either c d) rest
  | _, c, rest => some (c, rest)

def readCommand : Nat → List Token → Option (Command × List Token)
  | 0, _ => none
  | fuel + 1, ts =>
    let close (c : Command) (rest : List Token) : Option (Command × List Token) := do
      let (rs, rest) ← readRedirects rest
      return (withRedirects c rs, rest)
    match ts with
    | .op "(" :: rest => do
      let (body, rest) ← readList fuel rest
      match rest with
      | .op ")" :: rest => close (.nested body) rest
      | _ => none
    | t :: rest =>
      match t.bare? with
      | some "!" => do
        let (c, rest) ← readCommand fuel rest
        return (.negate c, rest)
      | some "\x7b" => do
        let (body, rest) ← readList fuel rest
        close (.group body) (← expectWord "\x7d" rest)
      | some "if" => do
        let (c, rest) ← readWhether fuel rest
        close c rest
      | some "while" => do
        let (c, rest) ← readLoop fuel false rest
        close c rest
      | some "until" => do
        let (c, rest) ← readLoop fuel true rest
        close c rest
      | some "for" => do
        let (c, rest) ← readEach fuel rest
        close c rest
      | some "case" => match rest with
        | .word subject :: rest => do
          let rest ← expectWord "in" (skipLines rest)
          let (arms, rest) ← readArms fuel rest
          close (.select subject arms) rest
        | _ => none
      | _ => do
        let (ws, rs, rest) ← readSimple (t :: rest)
        if ws.isEmpty && rs.isEmpty then none
        else
          let (as, ws) := splitAssignments ws
          return (withRedirects (.simple as ws) rs, rest)
    | [] => none

/-- The rest of a choice after its first word. -/
def readWhether : Nat → List Token → Option (Command × List Token)
  | 0, _ => none
  | fuel + 1, ts => do
    let (test, rest) ← readList fuel ts
    let (body, rest) ← readList fuel (← expectWord "then" rest)
    match rest with
    | t :: rest => match t.bare? with
      | some "fi" => return (.whether test body [], rest)
      | some "else" =>
        let (other, rest) ← readList fuel rest
        return (.whether test body other, ← expectWord "fi" rest)
      | some "elif" =>
        let (other, rest) ← readWhether fuel rest
        return (.whether test body [other], rest)
      | _ => none
    | [] => none

def readLoop : Nat → Bool → List Token → Option (Command × List Token)
  | 0, _, _ => none
  | fuel + 1, fails, ts => do
    let (test, rest) ← readList fuel ts
    let (body, rest) ← readList fuel (← expectWord "do" rest)
    return (.loop fails test body, ← expectWord "done" rest)

def readEach : Nat → List Token → Option (Command × List Token)
  | 0, _ => none
  | fuel + 1, ts =>
    match ts with
    | t :: rest => do
      let name ← t.bare?
      let (values, rest) ← match expectWord "in" rest with
        | some rest =>
          let (ws, rest) := readWords rest
          pure (some ws, rest)
        | none => pure (none, rest)
      let (body, rest) ← readList fuel (← expectWord "do" (skipLines rest))
      return (.each name values body, ← expectWord "done" rest)
    | [] => none

def readArms : Nat → List Token → Option (List (List Word × List Command) × List Token)
  | 0, _ => none
  | fuel + 1, ts =>
    let ts := skipLines ts
    match expectWord "esac" ts with
    | some rest => some ([], rest)
    | none => do
      let (patterns, rest) ← readPatterns (match ts with
        | .op "(" :: rest => rest
        | _ => ts)
      let (body, rest) ← readList fuel rest
      match rest with
      | .op ";;" :: rest =>
        let (arms, rest) ← readArms fuel rest
        return ((patterns, body) :: arms, rest)
      | _ => return ([(patterns, body)], ← expectWord "esac" rest)

end

def read? (text : String) : Option (List Command) := do
  let tokens ← readTokens (text.length + 1) text.toList
  match ← readList (4 * tokens.length + 4) tokens with
  | (cs, []) => some cs
  | _ => none

end Montage.Script
