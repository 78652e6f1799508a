/-!
A small script language, after the usual command shells.  Scripts stand in for the processor: what
an engine does with a process can then be followed without one.
-/

namespace Montage.Script

/-- A part of a word.  Quoting decides whether blanks and pattern marks in it count. -/
inductive Piece
  | text (s : List Char) (quoted : Bool)
  | value (name : String) (fallback : Option (List Char)) (quoted : Bool)
  | sum (expression : List Char) (quoted : Bool)

abbrev Word := List Piece

inductive RedirectKind
  | read
  | write
  | append
  | copy

structure Redirect where
  descriptor : Nat
  kind : RedirectKind
  target : Word

inductive Command
  | simple (assignments : List (String × Word)) (words : List Word)
  | each (name : String) (values : Option (List Word)) (body : List Command)
  | whether (test body other : List Command)
  /-- Runs the body as long as the test succeeds or, with `fails`, as long as it fails. -/
  | loop (fails : Bool) (test body : List Command)
  | select (subject : Word) (arms : List (List Word × List Command))
  | group (body : List Command)
  /-- Runs apart: what it sets is forgotten at its end. -/
  | nested (body : List Command)
  | both (a b : Command)
  | either (a b : Command)
  | negate (a : Command)
  | redirected (a : Command) (redirects : List Redirect)

inductive Token
  | word (w : Word)
  | op (s : String)
  | redirect (descriptor : Nat) (kind : RedirectKind)

/-- The text of a word that is a single bare text. -/
def Token.bare? : Token → Option String
  | .word [.text s false] => some (String.ofList s)
  | _ => none

end Montage.Script
