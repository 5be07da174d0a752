import AssetCompiler.Text.Octets

/-! # Commands of scripts

A script is read into commands. A word is a row of parts, of which only the text is fixed; the
others are expanded when the command runs. The text of a document that stands behind its
command is kept apart, under a number.
-/
namespace AssetCompiler.Shell

inductive Operation where
  | value
  | length
  /-- A word in place of no value. -/
  | orElse
  /-- A word that becomes the value where there is none. -/
  | orAssign
  /-- A complaint where there is no value. -/
  | orFail
  /-- A word in place of a value. -/
  | instead
  | dropFront (longest : Bool)
  | dropBack (longest : Bool)
  /-- Something that cannot be made. -/
  | invalid
  deriving DecidableEq, Inhabited, Repr

inductive Direction where
  | input
  | output
  | clobber
  | append
  | both
  deriving DecidableEq, Inhabited, Repr

mutual
inductive Part where
  | text (quoted : Bool) (s : Octets)
  /-- A parameter, with a word; `emptyToo` tells whether an empty value counts as none. -/
  | parameter (quoted : Bool) (name : Octets) (op : Operation) (emptyToo : Bool)
    (word : List Part)
  | output (quoted : Bool) (c : Option Command)
  | sum (quoted : Bool) (expression : List Part)

inductive Redirection where
  | file (descriptor : Nat) (direction : Direction) (name : List Part)
  | duplicate (descriptor : Nat) (source : Nat)
  /-- A duplicate of a descriptor that is known when the command runs. -/
  | duplicateWord (descriptor : Nat) (source : List Part)
  | close (descriptor : Nat)
  | document (descriptor : Nat) (number : Nat)

inductive Command where
  | simple (line : Nat) (assignments : List (Octets × List Part)) (words : List (List Part))
    (redirections : List Redirection)
  | pipeline (cs : List Command) (background : Bool)
  | negation (c : Command)
  | both (c d : Command)
  | either (c d : Command)
  | sequence (c d : Command)
  | background (c : Command) (redirections : List Redirection)
  | subshell (line : Nat) (c : Command) (redirections : List Redirection)
  | redirected (line : Nat) (c : Command) (redirections : List Redirection)
  | condition (test yes : Command) (no : Option Command)
  | loop (untilTrue : Bool) (test body : Command)
  | each (line : Nat) (name : Octets) (words : List (List Part)) (body : Command)
  | selection (line : Nat) (subject : List Part) (cases : List (List (List Part) × Option Command))
  | definition (name : Octets) (body : Command)
end

instance : Inhabited Part := ⟨.text false []⟩

instance : Inhabited Redirection := ⟨.close 0⟩

instance : Inhabited Command := ⟨.simple 0 [] [] []⟩

abbrev Word := List Part

/-- The text of a word that is nothing but text without quotes. -/
def plainText? : Word → Option Octets
  | [.text false s] => some s
  | _ => none

def isNameStart (c : Char) : Bool := c.isAlpha || c == '_'

def isNameChar (c : Char) : Bool := c.isAlphanum || c == '_'

def isName (s : Octets) : Bool :=
  match s with
  | c :: cs => isNameStart c && cs.all isNameChar
  | [] => false

def assignment? : Word → Option (Octets × Word)
  | .text false s :: parts =>
    let name := s.takeWhile isNameChar
    match s.drop name.length with
    | '=' :: rest =>
      if isName name then
        some (name, if rest = [] then parts else .text false rest :: parts)
      else none
    | _ => none
  | _ => none

end AssetCompiler.Shell
