import AssetCompiler.Shell.Command

/-! # Scripts that are being read

A script is read from its front, line by line. A line break behind a backslash joins two lines
wherever something is looked for. The last token can be put back; documents are announced in
one line and stand below it.
-/
namespace AssetCompiler.Shell

inductive Token where
  | ending
  | lineEnd
  | operator (text : String)
  | redirection
  | word
  | keyword (text : String)
  deriving DecidableEq, Inhabited, Repr

namespace Token

def name : Token → String
  | ending => "end of file"
  | lineEnd => "newline"
  | operator text | keyword text => "\"" ++ text ++ "\""
  | redirection => "redirection"
  | word => "word"

def endsList : Token → Bool
  | ending => true
  | operator text => text == ")" || text == ";;"
  | keyword text =>
    ["do", "done", "elif", "else", "esac", "fi", "then", "\x7d"].contains text
  | _ => false

end Token

/-- Words that are no names of commands where a command begins. -/
def keywords : List String :=
  ["!", "case", "do", "done", "elif", "else", "esac", "fi", "for", "if", "in", "then", "until",
    "while", "\x7b", "\x7d"]

inductive Arrow where
  | file (direction : Direction)
  | duplicate
  | document (stripsTabs : Bool)
  deriving DecidableEq, Inhabited, Repr

structure Checks where
  /-- Line breaks before it are skipped. -/
  newlines : Bool := false
  keywords : Bool := false
  /-- It ends a document, and nothing in it is expanded. -/
  mark : Bool := false
  deriving DecidableEq, Inhabited, Repr

/-- A document that is still to be read. -/
structure Announced where
  number : Nat
  mark : Octets
  stripsTabs : Bool
  expands : Bool
  deriving DecidableEq, Inhabited, Repr

structure Source where
  rest : Octets
  line : Nat := 1
  token : Token := .ending
  isPutBack : Bool := false
  word : Word := []
  /-- The descriptor and the kind of the last redirection. -/
  arrow : Nat × Arrow := (0, .duplicate)
  checks : Checks := {}
  inDocument : Bool := false
  announced : List Announced := []
  documents : List (Nat × Word) := []
  /-- The number of the next document. -/
  next : Nat := 0
  deriving Inhabited

/-- Reading of a script, which fails with what is wrong about it. -/
abbrev Reading := ExceptT String (StateM Source)

namespace Source

/-- What stands behind joined lines, and the number of its line. -/
def joined : Octets → Nat → Octets × Nat
  | '\\' :: '\n' :: cs, line => joined cs (line + 1)
  | cs, line => (cs, line)

def blanks (cs : Octets) (line : Nat) : Octets × Nat :=
  match cs with
  | '\\' :: '\n' :: cs => blanks cs (line + 1)
  | ' ' :: cs | '\t' :: cs => blanks cs line
  | '#' :: cs => (cs.dropWhile (· != '\n'), line)
  | cs => (cs, line)
  termination_by cs.length

/-- The lines of a document and what stands behind it. A line that is joined to the one before
it cannot end the document. -/
def documentLines (d : Announced) : Nat → Bool → Octets → Octets × Octets
  | 0, _, cs => ([], cs)
  | _, _, [] => ([], [])
  | n + 1, isJoined, cs =>
    let cs := if d.stripsTabs then cs.dropWhile (· == '\t') else cs
    let line := cs.takeWhile (· != '\n')
    let rest := cs.drop (line.length + 1)
    if !isJoined && line == d.mark then ([], rest)
    else
      let ending := if line.length < cs.length then ['\n'] else []
      let slashes := (line.reverse.takeWhile (· == '\\')).length
      let (more, after) := documentLines d n (d.expands && slashes % 2 == 1) rest
      (line ++ ending ++ more, after)

end Source

namespace Reading

def peekRaw : Reading (Option Char) := do return (← get).rest.head?

/-- The next character behind joined lines. -/
def peek : Reading (Option Char) := do
  modify fun s =>
    let (rest, line) := Source.joined s.rest s.line
    { s with rest, line }
  peekRaw

def advance : Reading Unit :=
  modify fun s =>
    match s.rest with
    | '\n' :: rest => { s with rest, line := s.line + 1 }
    | _ :: rest => { s with rest }
    | [] => s

def passes (c : Char) : Reading Bool := do
  if (← peek) == some c then
    advance
    return true
  return false

def takeWhile (p : Char → Bool) : Nat → Reading Octets
  | 0 => return []
  | n + 1 => do
    match ← peek with
    | some c =>
      if p c then
        advance
        return c :: (← takeWhile p n)
      else return []
    | none => return []

/-- More than the number of characters that are left. -/
def limit : Reading Nat := do return (← get).rest.length + 2

def putBack : Reading Unit := modify fun s => { s with isPutBack := true }

def check (checks : Checks) : Reading Unit := modify fun s => { s with checks }

def unexpected {α : Type} (expected? : Option Token) : Reading α := do
  let found := (← get).token.name ++ " unexpected"
  match expected? with
  | some t => throw (found ++ " (expecting " ++ t.name ++ ")")
  | none => throw found

def within {α : Type} (text : Octets) (line : Nat) (act : Reading α) : Reading α := do
  let outer ← get
  set { outer with rest := text, line }
  let a ← act
  modify fun s => { s with rest := outer.rest, line := outer.line }
  return a

end Reading

end AssetCompiler.Shell
